import StyleValue.Proofs.ReachableBindings
import StyleValue.Proofs.SubstitutionAgreement

set_option autoImplicit false

namespace StyleValue

/-- A name has values in both that are equal up to spans, or it has none in either. -/
def Scopes.EqualUpToSpans (scopes scopes' : Scopes) : Prop :=
  ∀ name, (scopes.lookup name).map Expr.eraseSpans = (scopes'.lookup name).map Expr.eraseSpans

theorem Scopes.EqualUpToSpans.refl (scopes : Scopes) : scopes.EqualUpToSpans scopes := fun _ => rfl

theorem Expr.css_of_eraseSpans_eq {e e' : Expr} (h : e.eraseSpans = e'.eraseSpans) (opts : Options) :
    e.css opts = e'.css opts := by
  rw [← e.css_mapSpans opts fun _ => .nowhere, ← e'.css_mapSpans opts fun _ => .nowhere]
  exact congrArg (css opts) h

theorem Library.Standard.exists_erased_result {lib : Library} (h : lib.Standard) {ctx ctx' : Context}
    (hoptions : ctx'.options = ctx.options) (hpending : ctx'.pending = ctx.pending)
    (hscopes : ctx.scopes.EqualUpToSpans ctx'.scopes) {e e' : Expr} (he : e.eraseSpans = e'.eraseSpans) :
    ∃ r r' q, e.Yields lib ctx r ∧ e'.Yields lib ctx' r' ∧ Mapped (fun _ => .nowhere) Expr.eraseSpans r q ∧
      Mapped (fun _ => .nowhere) Expr.eraseSpans r' q := by
  have hlookup (name : String) :
      ctx'.eraseSpans.scopes.lookup name = ctx.eraseSpans.scopes.lookup name := by
    have hmap (c : Context) : c.eraseSpans.scopes.lookup name = (c.scopes.lookup name).map Expr.eraseSpans :=
      c.scopes.lookup_mapSpans _ name
    rw [hmap ctx, hmap ctx', hscopes name]
  obtain ⟨r, hr⟩ := h.exists_yields e ctx
  obtain ⟨r', hr'⟩ := h.exists_yields e' ctx'
  obtain ⟨q, hq, hy⟩ := h.yields_eraseSpans hr
  obtain ⟨q', hq', hy'⟩ := h.yields_eraseSpans hr'
  have hoptions' : ctx'.eraseSpans.options = ctx.eraseSpans.options := hoptions
  have hpending' : ctx'.eraseSpans.pending = ctx.eraseSpans.pending := hpending
  rw [← he] at hy'
  obtain ⟨p, hp, hp'⟩ := h.exists_yields_of_lookup hoptions' hpending' fun name _ => hlookup name
  obtain rfl := hy.unique hp
  obtain rfl := hy'.unique hp'
  exact ⟨r, r', _, hr, hr', hq, hq'⟩

theorem spans_do_not_affect_values {lib : Library} (h : lib.Standard) {ctx ctx' : Context}
    (hoptions : ctx'.options = ctx.options) (hpending : ctx'.pending = ctx.pending)
    (hscopes : ctx.scopes.EqualUpToSpans ctx'.scopes) {e e' : Expr} (he : e.eraseSpans = e'.eraseSpans) :
    (∃ v v' text, e.Yields lib ctx (.ok v) ∧ e'.Yields lib ctx' (.ok v') ∧ v.eraseSpans = v'.eraseSpans ∧
      (Eval.render v).run ctx = .value text ctx ∧ (Eval.render v').run ctx' = .value text ctx') ∨
    ∃ f f', e.Yields lib ctx (.error f) ∧ e'.Yields lib ctx' (.error f') ∧ f.cause = f'.cause := by
  obtain ⟨r, r', q, hr, hr', hq, hq'⟩ := h.exists_erased_result hoptions hpending hscopes he
  cases r with
  | ok v =>
    cases hq
    cases r' with
    | ok v' =>
      have hsame : v.eraseSpans = v'.eraseSpans := Except.ok.inj hq'
      refine .inl ⟨v, v', v.css ctx.options, hr, hr', hsame, Eval.run_render v ctx, ?_⟩
      rw [Eval.run_render, hoptions, Expr.css_of_eraseSpans_eq hsame]
    | error f' => cases hq'
  | error f =>
    cases hq
    cases r' with
    | ok v' => cases hq'
    | error f' =>
      have hsame : f.mapSpan (fun _ => .nowhere) = f'.mapSpan fun _ => .nowhere := Except.error.inj hq'
      exact .inr ⟨f, f', hr, hr', (congrArg Fault.cause hsame :)⟩

/-- The same call under strict math at two places, with the value of its variable at two places. -/
theorem spans_do_not_affect_values_of_call :
    let word (w : String) (s : Span) : Expr := .atom (.keyword w) s
    let e (s : Span) : Expr :=
      .call ⟨"f", s⟩ [.reference "a" s, .operation (word "x" s) .div (word "y" s) s] s
    let ctx (s : Span) : Context :=
      { options := { strictMath := true }, scopes := Scopes.define {} "a" (.list [word "u" s, word "v" s] s) }
    ∃ v v', (e ⟨0, 9⟩).Yields .empty (ctx ⟨20, 29⟩) (.ok v) ∧ (e ⟨40, 41⟩).Yields .empty (ctx ⟨7, 7⟩) (.ok v') ∧
      v.span ≠ v'.span ∧ v.eraseSpans = v'.eraseSpans := by
  intro word e ctx
  have hscopes : (ctx ⟨20, 29⟩).scopes.EqualUpToSpans (ctx ⟨7, 7⟩).scopes := by
    intro name
    change (Table.find? (Table.empty.insert "a" _) name).map _ = (Table.find? (Table.empty.insert "a" _) name).map _
    rw [Table.find?_insert, Table.find?_insert]
    split <;> rfl
  have hoptions : (ctx ⟨7, 7⟩).options = (ctx ⟨20, 29⟩).options := rfl
  have he : (e ⟨0, 9⟩).eraseSpans = (e ⟨40, 41⟩).eraseSpans := rfl
  have hrun (s t : Span) : (e s).Yields .empty (ctx t) (.ok (.atom (.text "f(u v, x / y)") s)) :=
    ⟨4, fun | _ + 4, _ => rfl⟩
  rcases spans_do_not_affect_values (.inl rfl) hoptions rfl hscopes he with
    ⟨v, v', -, hv, hv', hsame, -⟩ | ⟨f, f', hf, -⟩
  · cases hv.unique (hrun ⟨0, 9⟩ ⟨20, 29⟩)
    cases hv'.unique (hrun ⟨40, 41⟩ ⟨7, 7⟩)
    exact ⟨_, _, hv, hv', by decide, hsame⟩
  · cases hf.unique (hrun ⟨0, 9⟩ ⟨20, 29⟩)

end StyleValue
