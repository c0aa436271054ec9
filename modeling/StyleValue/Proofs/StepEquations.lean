import StyleValue.Proofs.PassEquations
import StyleValue.Proofs.StepResults

set_option autoImplicit false

namespace StyleValue

def Context.pend (ctx : Context) (name : String) : Context :=
  { ctx with pending := name :: ctx.pending }

def Context.unpend (ctx : Context) : Context := { ctx with pending := ctx.pending.tail }

/-- What was the same while a variable was pending is so when it is pending no more. -/
def Context.Unwinds {γ : Type} (view : Context → γ) : Prop :=
  ∀ name ctx after, view after = view (Context.pend ctx name) → view after.unpend = view ctx

theorem Context.unwinds_id : Unwinds id := by
  rintro name ctx _ rfl
  rfl

theorem Context.unwinds_pending : Unwinds pending := by
  intro name ctx after h
  change after.pending.tail = ctx.pending
  rw [h]
  rfl

namespace Expr

def isReference : Expr → Bool
  | .reference _ _ => true
  | _ => false

theorem eq_reference {e : Expr} (h : e.isReference = true) : ∃ name s, e = .reference name s := by
  cases e <;> simp_all [isReference]

/-- What the evaluation of a node evaluates in the context of the node. -/
def operands (strict : Bool) : Expr → List Expr
  | .operation l _ r _ => [l, r]
  | .call _ args _ => if strict then args.map suppress else args
  | .list items _ => items
  | .atom _ _ | .reference _ _ | .deferred _ _ _ _ => []

theorem exists_operand {strict : Bool} {e x : Expr} (h : x ∈ e.operands strict) :
    ∃ a ∈ e.operands false, x = a ∨ x = a.suppress := by
  cases e with
  | call site args s =>
    cases strict with
    | false => exact ⟨x, h, .inl rfl⟩
    | true =>
      obtain ⟨a, ha, hx⟩ := List.mem_map.mp h
      exact ⟨a, ha, .inr hx.symm⟩
  | atom v s => exact ⟨x, h, .inl rfl⟩
  | reference name s => exact ⟨x, h, .inl rfl⟩
  | operation l op r s => exact ⟨x, h, .inl rfl⟩
  | deferred l op r s => exact ⟨x, h, .inl rfl⟩
  | list items s => exact ⟨x, h, .inl rfl⟩

/-- What becomes of a node whose operands have these values. Operations have two operands. -/
def finish (lib : Library) (eval : Expr → Eval Expr) : Expr → List Expr → Eval Expr
  | .operation _ op _ s, [a, b] =>
    match a.combine op b with
    | .ok v => pure (.atom v s)
    | .error cause => .fail (cause.atSpan s)
  | .operation _ _ _ s, _ => pure (.list [] s)
  | .call site _ _, values => .dispatch lib eval ⟨site, values⟩
  | .list _ s, values => pure (.list values s)
  | e, _ => pure e

theorem step_of_operands (lib : Library) (eval : Expr → Eval Expr) {e : Expr}
    (he : e.isReference = false) (ctx : Context) :
    (e.step lib eval).run ctx =
      ((e.operands ctx.options.strictMath).mapM eval >>= e.finish lib eval).run ctx := by
  cases e with
  | atom v s => rfl
  | reference name s => cases he
  | operation l op r s =>
    have hm : [l, r].mapM eval = do
        let a ← eval l
        let b ← eval r
        return [a, b] := by
      simp only [List.mapM_cons, List.mapM_nil, bind_assoc, pure_bind]
    rw [operands, hm]
    simp only [bind_assoc, pure_bind]
    rfl
  | deferred l op r s => rfl
  | call site args s => rfl
  | list items s => rfl

end Expr

namespace Eval

variable {eval : Expr → Eval Expr} {name : String} {ctx : Context}

theorem run_resolve_pending (h : name ∈ ctx.pending) (eval : Expr → Eval Expr) (s : Span) :
    (resolve eval name s).run ctx = .fault ((Cause.cyclic name).atSpan s) ctx := by
  rw [resolve, run_bind, run_context]
  simp only [if_pos h]
  rfl

theorem run_resolve_unbound (hp : name ∉ ctx.pending) (h : ctx.scopes.lookup name = none)
    (eval : Expr → Eval Expr) (s : Span) :
    (resolve eval name s).run ctx = .fault ((Cause.undefined name).atSpan s) ctx := by
  rw [resolve, run_bind, run_context]
  simp only [if_neg hp, h]
  rfl

theorem run_resolve_bound (hp : name ∉ ctx.pending) {value : Expr}
    (h : ctx.scopes.lookup name = some value) (eval : Expr → Eval Expr) (s : Span) :
    (resolve eval name s).run ctx =
      (between (Context.pend · name) Context.unpend (eval value) >>= fun e =>
        pure (e.relocate s)).run ctx := by
  rw [resolve, run_bind, run_context]
  simp only [if_neg hp, h]
  rfl

theorem result_resolve_bound (hp : name ∉ ctx.pending) {value : Expr}
    (h : ctx.scopes.lookup name = some value) (eval : Expr → Eval Expr) (s : Span) :
    ((resolve eval name s).run ctx).result? =
      ((eval value).run (ctx.pend name)).result?.map (Except.map (Expr.relocate s)) := by
  rw [run_resolve_bound hp h, result_map, result_between]

theorem keeps_resolve {γ : Type} {view : Context → γ} (hview : Context.Unwinds view)
    (h : ∀ e, (eval e).Keeps view) (name : String) (s : Span) : (resolve eval name s).Keeps view := by
  intro ctx
  by_cases hp : name ∈ ctx.pending
  · rw [run_resolve_pending hp]
    exact (restores_fail _).keeps view ctx
  · cases hv : ctx.scopes.lookup name with
    | none =>
      rw [run_resolve_unbound hp hv]
      exact (restores_fail _).keeps view ctx
    | some value =>
      rw [run_resolve_bound hp hv]
      exact ((h value).between (hview name)).bind (fun e => (restores_pure (e.relocate s)).keeps view) ctx

theorem resolve_follows {exempt : Fault → Prop} {eval' : Expr → Eval Expr} {ctx' : Context} {s : Span}
    (hlookup : ctx'.scopes.lookup name = ctx.scopes.lookup name)
    (hpending : name ∈ ctx'.pending ↔ name ∈ ctx.pending)
    (hvalue : ∀ value, ctx.scopes.lookup name = some value → name ∉ ctx.pending →
      ((eval value).run (ctx.pend name)).Follows exempt ((eval' value).run (ctx'.pend name))) :
    ((resolve eval name s).run ctx).Follows exempt ((resolve eval' name s).run ctx') := by
  by_cases hp : name ∈ ctx.pending
  · rw [run_resolve_pending hp, run_resolve_pending (hpending.mpr hp)]
    exact .inr rfl
  · have hp' := fun h => hp (hpending.mp h)
    cases hv : ctx.scopes.lookup name with
    | none =>
      rw [run_resolve_unbound hp hv, run_resolve_unbound hp' (hlookup.trans hv)]
      exact .inr rfl
    | some value =>
      exact (hvalue value hv hp).of_map (result_resolve_bound hp hv eval s)
        (result_resolve_bound hp' (hlookup.trans hv) eval' s)

theorem resolve_cases (eval : Expr → Eval Expr) (name : String) (s : Span) (ctx : Context) :
    name ∈ ctx.pending ∧
        (resolve eval name s).run ctx = .fault ((Cause.cyclic name).atSpan s) ctx ∨
      ctx.scopes.lookup name = none ∧
        (resolve eval name s).run ctx = .fault ((Cause.undefined name).atSpan s) ctx ∨
      name ∉ ctx.pending ∧ ∃ value, ctx.scopes.lookup name = some value ∧
        ((resolve eval name s).run ctx).result? =
          ((eval value).run (ctx.pend name)).result?.map (Except.map (Expr.relocate s)) := by
  by_cases hp : name ∈ ctx.pending
  · exact .inl ⟨hp, run_resolve_pending hp eval s⟩
  · cases hv : ctx.scopes.lookup name with
    | none => exact .inr (.inl ⟨rfl, run_resolve_unbound hp hv eval s⟩)
    | some value => exact .inr (.inr ⟨hp, value, rfl, result_resolve_bound hp hv eval s⟩)

theorem value_of_resolve (h : ∀ e, (eval e).Restores) {s : Span} {v : Expr} {after : Context}
    (hrun : (resolve eval name s).run ctx = .value v after) :
    name ∉ ctx.pending ∧ ∃ value w, ctx.scopes.lookup name = some value ∧
      (eval value).run (ctx.pend name) = .value w (ctx.pend name) ∧ v = w.relocate s := by
  rcases resolve_cases eval name s ctx with ⟨-, hr⟩ | ⟨-, hr⟩ | ⟨hp, value, hv, hr⟩
  · cases hrun.symm.trans hr
  · cases hrun.symm.trans hr
  · rw [hrun] at hr
    cases hw : (eval value).run (ctx.pend name) with
    | value w final =>
      rw [hw] at hr
      cases hr
      exact ⟨hp, value, w, hv, by rw [hw, (h value).value hw], rfl⟩
    | fault f final => rw [hw] at hr; cases hr
    | tooDeep => rw [hw] at hr; cases hr

theorem fault_of_resolve (h : ∀ e, (eval e).Restores) {s : Span} {f : Fault} {after : Context}
    (hrun : (resolve eval name s).run ctx = .fault f after) :
    f = (Cause.cyclic name).atSpan s ∧ name ∈ ctx.pending ∨
      f = (Cause.undefined name).atSpan s ∧ ctx.scopes.lookup name = none ∨
      ∃ value, ctx.scopes.lookup name = some value ∧
        (eval value).run (ctx.pend name) = .fault f (ctx.pend name) := by
  rcases resolve_cases eval name s ctx with ⟨hp, hr⟩ | ⟨hv, hr⟩ | ⟨-, value, hv, hr⟩
  · cases hrun.symm.trans hr
    exact .inl ⟨rfl, hp⟩
  · cases hrun.symm.trans hr
    exact .inr (.inl ⟨rfl, hv⟩)
  · rw [hrun] at hr
    cases hw : (eval value).run (ctx.pend name) with
    | value w final => rw [hw] at hr; cases hr
    | fault g final =>
      rw [hw] at hr
      cases hr
      exact .inr (.inr ⟨value, hv, by rw [hw, (h value).fault hw]⟩)
    | tooDeep => rw [hw] at hr; cases hr

theorem tooDeep_of_resolve {s : Span} (hrun : (resolve eval name s).run ctx = .tooDeep) :
    name ∉ ctx.pending ∧ ∃ value, ctx.scopes.lookup name = some value ∧
      (eval value).run (ctx.pend name) = .tooDeep := by
  rcases resolve_cases eval name s ctx with ⟨-, hr⟩ | ⟨-, hr⟩ | ⟨hp, value, hv, hr⟩
  · cases hrun.symm.trans hr
  · cases hrun.symm.trans hr
  · rw [hrun] at hr
    cases hw : (eval value).run (ctx.pend name) with
    | value w final => rw [hw] at hr; cases hr
    | fault g final => rw [hw] at hr; cases hr
    | tooDeep => exact ⟨hp, value, hv, hw⟩

end Eval

def Invocation.css (opts : Options) (inv : Invocation) : String :=
  inv.name ++ "(" ++ Css.joined opts.separator (Expr.cssEach opts inv.args) ++ ")"

theorem Output.append_push (o : Output) (text : String) :
    o.push.append text = { o with nested := text :: o.nested } := by
  simp [push, append, mapCurrent]

theorem Eval.run_passthrough (inv : Invocation) (ctx : Context) :
    (passthrough inv).run ctx = .value (inv.answer (.text (inv.css ctx.options))) ctx := by
  have hout : (Expr.writeJoined ctx.options ctx.options.separator inv.args
      ((ctx.output.push.append inv.name).append "(")).append ")" =
        { ctx.output with nested := inv.css ctx.options :: ctx.output.nested } := by
    rw [Expr.writeJoined_eq, Output.append_append, Output.append_append, Output.append_append,
      Output.append_push, Invocation.css, String.append_assoc, String.append_assoc]
  change Outcome.value (inv.answer (.text (Output.take ((Expr.writeJoined ctx.options ctx.options.separator
    inv.args ((ctx.output.push.append inv.name).append "(")).append ")")).1)) { ctx with
      output := (Output.take ((Expr.writeJoined ctx.options ctx.options.separator
        inv.args ((ctx.output.push.append inv.name).append "(")).append ")")).2.pop.2 } = _
  rw [hout]
  rfl

theorem Eval.dispatch_known {lib : Library} (inv : Invocation) {f : Function} (h : lib.find? inv.name = some f)
    (eval : Expr → Eval Expr) : dispatch lib eval inv = f eval inv >>= fun e => pure (e.relocate inv.span) := by
  rw [dispatch, h]

theorem Eval.run_dispatch_unknown {lib : Library} (inv : Invocation) (h : lib.find? inv.name = none)
    (eval : Expr → Eval Expr) (ctx : Context) :
    (dispatch lib eval inv).run ctx = .value (inv.answer (.text (inv.css ctx.options))) ctx := by
  rw [dispatch, h]
  exact run_passthrough inv ctx

theorem Eval.run_render (e : Expr) (ctx : Context) :
    (render e).run ctx = .value (e.css ctx.options) ctx := by
  have hout : e.write ctx.options ctx.output.push =
      { ctx.output with nested := e.css ctx.options :: ctx.output.nested } := by
    rw [Expr.write_eq, Output.append_push]
  change Outcome.value (e.write ctx.options ctx.output.push).take.1 { ctx with
    output := (e.write ctx.options ctx.output.push).take.2.pop.2 } = _
  rw [hout]
  rfl

theorem Eval.css_of_run_render {e : Expr} {ctx : Context} {text : String}
    (h : (render e).run ctx = .value text ctx) : e.css ctx.options = text :=
  (Outcome.value.inj ((run_render e ctx).symm.trans h)).1

namespace Expr

variable {lib : Library} {eval : Expr → Eval Expr}

theorem restores_passthrough (inv : Invocation) : (Eval.passthrough inv).Restores := by
  intro ctx after h
  rw [Eval.run_passthrough] at h
  exact (Option.some.inj h).symm

section Keeps

variable {γ : Type} {view : Context → γ}

theorem keeps_dispatch
    (hlib : ∀ name f, lib.find? name = some f → ∀ inv, (f eval inv).Keeps view) (inv : Invocation) :
    (Eval.dispatch lib eval inv).Keeps view := by
  unfold Eval.dispatch
  split
  · next f hf => exact (hlib _ f hf inv).bind fun e => (Eval.restores_pure (e.relocate inv.span)).keeps view
  · exact (restores_passthrough inv).keeps view

theorem keeps_finish
    (hlib : ∀ name f, lib.find? name = some f → ∀ inv, (f eval inv).Keeps view) (e : Expr)
    (values : List Expr) : (e.finish lib eval values).Keeps view := by
  unfold finish
  split
  · split
    · exact (Eval.restores_pure _).keeps view
    · exact (Eval.restores_fail _).keeps view
  · exact (Eval.restores_pure _).keeps view
  · exact keeps_dispatch hlib _
  · exact (Eval.restores_pure _).keeps view
  · exact (Eval.restores_pure _).keeps view

/-- A step keeps what the functions and the evaluator keep that it is handed. -/
theorem keeps_step (hview : Context.Unwinds view)
    (hlib : ∀ name f, lib.find? name = some f → ∀ inv, (f eval inv).Keeps view)
    (heval : ∀ e, (eval e).Keeps view) (e : Expr) : (e.step lib eval).Keeps view := by
  intro ctx
  cases he : e.isReference with
  | true =>
    obtain ⟨name, s, rfl⟩ := eq_reference he
    exact Eval.keeps_resolve hview heval name s ctx
  | false =>
    rw [step_of_operands lib eval he]
    exact (Eval.Keeps.mapM heval _).bind (keeps_finish hlib e) ctx

end Keeps

theorem restores_step
    (hlib : ∀ name f, lib.find? name = some f → ∀ inv, (f eval inv).Restores)
    (heval : ∀ e, (eval e).Restores) (e : Expr) : (e.step lib eval).Restores :=
  Eval.Keeps.restores <| keeps_step Context.unwinds_id
    (fun name f hf inv => (hlib name f hf inv).keeps id) (fun x => (heval x).keeps id) e

theorem value_of_step (heval : ∀ e, (eval e).Restores) {e v : Expr} (he : e.isReference = false)
    {ctx after : Context} (hrun : (e.step lib eval).run ctx = .value v after) :
    ∀ x ∈ e.operands ctx.options.strictMath, ∃ w, (eval x).run ctx = .value w ctx := by
  rw [step_of_operands lib eval he] at hrun
  obtain ⟨values, hvalues, -⟩ := Eval.value_of_bind (.mapM heval _) hrun
  exact Eval.value_of_mapM heval hvalues

end Expr

end StyleValue
