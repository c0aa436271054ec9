import StyleValue.Proofs.ArgumentEvaluation

set_option autoImplicit false

namespace StyleValue

namespace Output

theorem appendEach_eq (separator : String) (texts : List String) (o : Output) :
    appendEach separator texts o = o.append (Css.behind separator texts) := by
  induction texts generalizing o with
  | nil => exact o.append_empty.symm
  | cons text rest ih => simp [appendEach, Css.behind, ih, append_append, String.append_assoc]

theorem appendJoined_eq (separator : String) (texts : List String) (o : Output) :
    o.appendJoined separator texts = o.append (Css.joined separator texts) := by
  cases texts with
  | nil => exact o.append_empty.symm
  | cons text rest => simp [appendJoined, Css.joined, appendEach_eq, append_append]

end Output

theorem Eval.run_emit (e : Expr) (ctx : Context) :
    (emit e).run ctx = .value () { ctx with output := ctx.output.append (e.css ctx.options) } := by
  rw [← Expr.write_eq]
  rfl

theorem Eval.run_emitJoined (separator : String) (es : List Expr) (ctx : Context) :
    (emitJoined separator es).run ctx = .value () { ctx with
      output := ctx.output.appendJoined separator (es.map (Expr.css ctx.options)) } := by
  rw [Output.appendJoined_eq, ← Expr.cssEach_eq_map, ← Expr.writeJoined_eq]
  rfl

theorem Eval.run_mapM_render (es : List Expr) (ctx : Context) :
    (es.mapM render).run ctx = .value (es.map (Expr.css ctx.options)) ctx :=
  run_mapM_of_forall₂ (List.forall₂_map_right_iff.mpr (List.forall₂_same.mpr fun e _ => run_render e ctx))

theorem emission_appends_rendered_text :
    (∀ (e : Expr) (ctx : Context), ∃ text, (Eval.render e).run ctx = .value text ctx ∧
      (Eval.emit e).run ctx = .value () { ctx with output := ctx.output.append text } ∧
      ∀ ctx' : Context, ctx'.options.compress = ctx.options.compress →
        (Eval.render e).run ctx' = .value text ctx') ∧
    ∀ (separator : String) (es : List Expr) (ctx : Context), ∃ texts,
      (es.mapM Eval.render).run ctx = .value texts ctx ∧ (Eval.emitJoined separator es).run ctx =
        .value () { ctx with output := ctx.output.appendJoined separator texts } := by
  constructor
  · intro e ctx
    refine ⟨e.css ctx.options, Eval.run_render e ctx, Eval.run_emit e ctx, fun ctx' hcompress => ?_⟩
    rw [Eval.run_render, Expr.css_of_compress hcompress]
  · intro separator es ctx
    exact ⟨_, Eval.run_mapM_render es ctx, Eval.run_emitJoined separator es ctx⟩

/-- A call in two contexts that have nothing in common but the compression. -/
theorem emission_appends_rendered_text_of_call :
    let e : Expr := .call ⟨"f", ⟨0, 1⟩⟩ [.reference "a" ⟨2, 4⟩, .operation (.atom (.keyword "b") ⟨5, 6⟩) .div
      (.atom (.quoted ⟨"c", '"', false⟩) ⟨7, 10⟩) ⟨5, 10⟩] ⟨0, 11⟩
    let ctx : Context := { options := ⟨false, true⟩, output := ⟨"d", []⟩ }
    let ctx' : Context :=
      { options := ⟨true, true⟩, output := ⟨"", ["d", "e"]⟩, scopes := Scopes.define {} "a" e, pending := ["a"] }
    (Eval.emit e).run ctx = .value () { ctx with output := ⟨"df(@a,b / \"c\")", []⟩ } ∧
      (Eval.render e).run ctx' = .value "f(@a,b / \"c\")" ctx' := by
  intro e ctx ctx'
  obtain ⟨text, hrender, hemit, hsame⟩ := emission_appends_rendered_text.1 e ctx
  have hcss : e.css ctx.options = "f(@a,b / \"c\")" := by decide +kernel
  obtain rfl := (Eval.css_of_run_render hrender).symm.trans hcss
  have hout : ctx.output.append "f(@a,b / \"c\")" = ⟨"df(@a,b / \"c\")", []⟩ := by decide +kernel
  rw [hout] at hemit
  exact ⟨hemit, hsame ctx' rfl⟩

theorem passthrough_is_text_of_values (lib : Library) (ctx : Context) (site : Site) (args : List Expr)
    (s : Span) :
    (lib.find? site.name = none → ∀ values after,
      Expr.Threads lib ctx ((Expr.call site args s).operands ctx.options.strictMath) values after →
      ∃ text, (Eval.render (.call site values s)).run after = .value text after ∧
        (Expr.call site args s).Ends lib ctx (.value (.atom (.text text) site.span) after)) ∧
    ∀ before x rest values middle f after,
      (Expr.call site args s).operands ctx.options.strictMath = before ++ x :: rest →
      Expr.Threads lib ctx before values middle → x.Ends lib middle (.fault f after) →
      (Expr.call site args s).Ends lib ctx (.fault f after) := by
  constructor
  · intro hunknown values after hvalues
    refine ⟨_, Eval.run_render _ after, hvalues.ends_call fun eval => ?_⟩
    exact Eval.run_dispatch_unknown ⟨site, values⟩ hunknown eval after
  · intro before x rest values middle f after hoperands hbefore hx
    exact hbefore.ends_call_fault hoperands hx

/-- The first argument turns compression on and leaves a buffer open. The second one has no value in the
second call, and what a third one would do is not seen. -/
theorem passthrough_is_text_of_values_after_leak :
    let leak : Function := fun _ inv => do
      Eval.modify fun ctx => { ctx with options := ⟨true, true⟩, output := ctx.output.push }
      Eval.append inv.name
      return .list inv.args .nowhere
    let lib := Library.empty.register "leak" leak
    let word (w : String) : Expr := .atom (.keyword w) .nowhere
    let first : Expr := .call ⟨"Leak", ⟨2, 6⟩⟩ [word "a", word "b"] ⟨2, 11⟩
    let ctx : Context := { output := ⟨"d", []⟩ }
    let after : Context := { options := ⟨true, true⟩, output := ⟨"d", ["Leak"]⟩ }
    lib.find? "f" = none ∧
      (Expr.call ⟨"f", ⟨0, 1⟩⟩ [first, word "c"] ⟨0, 14⟩).Ends lib ctx
        (.value (.atom (.text "f(a b,c)") ⟨0, 1⟩) after) ∧
      ∀ rest, (Expr.call ⟨"f", ⟨0, 1⟩⟩ (first :: .reference "e" ⟨12, 14⟩ :: rest) ⟨0, 20⟩).Ends lib ctx
        (.fault ((Cause.undefined "e").atSpan ⟨12, 14⟩) after) := by
  intro leak lib word first ctx after
  have hunknown : lib.find? "f" = none := by
    rw [Library.find?_register, if_neg (by decide +kernel)]
    rfl
  have hknown : lib.find? "Leak" = some leak := by
    rw [Library.find?_register, if_pos (Library.fold_eq_iff.mpr (by decide))]
  have hout : ctx.output.push.append "Leak" = after.output := by decide +kernel
  have hfirst : first.Ends lib ctx (.value (.list [word "a", word "b"] ⟨2, 6⟩) after) := by
    refine Expr.Threads.ends_call (.cons (Expr.ends_atom lib ctx _ _) (.cons (Expr.ends_atom lib ctx _ _)
      (.nil ctx))) fun eval => ?_
    rw [Eval.dispatch_known ⟨⟨"Leak", ⟨2, 6⟩⟩, [word "a", word "b"]⟩ hknown]
    change Outcome.value (Expr.list [word "a", word "b"] ⟨2, 6⟩) { ctx with
      options := ⟨true, true⟩, output := ctx.output.push.append "Leak" } = _
    rw [hout]
  refine ⟨hunknown, ?_, fun rest => ?_⟩
  · obtain ⟨text, hrender, hcall⟩ := (passthrough_is_text_of_values lib ctx ⟨"f", ⟨0, 1⟩⟩ [first, word "c"]
      ⟨0, 14⟩).1 hunknown _ after (.cons hfirst (.cons (Expr.ends_atom lib after _ _) (.nil after)))
    have hcss : (Expr.call ⟨"f", ⟨0, 1⟩⟩ [.list [word "a", word "b"] ⟨2, 6⟩, word "c"] ⟨0, 14⟩).css
        after.options = "f(a b,c)" := by decide +kernel
    obtain rfl := (Eval.css_of_run_render hrender).symm.trans hcss
    exact hcall
  · exact (passthrough_is_text_of_values lib ctx ⟨"f", ⟨0, 1⟩⟩ _ ⟨0, 20⟩).2 [first] _ rest _ after _ after rfl
      (.cons hfirst (.nil after)) ⟨1, fun | _ + 1, _ => rfl⟩

end StyleValue
