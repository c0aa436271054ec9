import Mathlib.Logic.Relation
import StyleValue.Proofs.ArgumentEvaluation
import StyleValue.Proofs.NestedCalls

/-!
The evaluations that one evaluation asks for when functions are scripted. Besides the values of variables and
the operands of nodes these are the expressions that the script of a function evaluates, in whatever context it
has made by then. Chains of them are the evaluations that are in progress at one time, and none is left out: an
evaluation gives up at a depth exactly if there is a longer chain below it.
-/

set_option autoImplicit false

namespace StyleValue

open Relation

/-- One operation of a script, in the context that the ones before it have left. -/
inductive Script.Next (lib : Library) : Script × Context → Script × Context → Prop
  | read (next : Fields → Script) (ctx : Context) : Next lib (.read next, ctx) (next ctx.fields, ctx)
  | write (f : Fields) (next : Script) (ctx : Context) : Next lib (.write f next, ctx) (next, ctx.withFields f)
  | evaluate {e : Expr} {next : Except Fault Expr → Script} {ctx after : Context} {r : Except Fault Expr}
      (he : e.Ends lib ctx (.ofResult r after)) : Next lib (.evaluate e next, ctx) (next r, after)

/-- One evaluation asks for the other: for the value of a variable, for an operand after those before it, or for
what the script of its function evaluates. -/
inductive Evaluation.Asks (lib : Library) : Evaluation → Evaluation → Prop
  | value {name : String} {s : Span} {value : Expr} {ctx : Context} (hpending : name ∉ ctx.pending)
      (hvalue : ctx.scopes.lookup name = some value) :
      Asks lib ⟨.reference name s, ctx⟩ ⟨value, ctx.pend name⟩
  | operand {e x : Expr} {ctx middle : Context} {before after values : List Expr}
      (hoperands : e.operands ctx.options.strictMath = before ++ x :: after)
      (hbefore : Expr.Threads lib ctx before values middle) : Asks lib ⟨e, ctx⟩ ⟨x, middle⟩
  | function {site : Site} {args values : List Expr} {s : Span} {ctx middle final : Context} {f : Function}
      {script : Script} {e : Expr} {next : Except Fault Expr → Script}
      (hargs : Expr.Threads lib ctx ((Expr.call site args s).operands ctx.options.strictMath) values middle)
      (hf : lib.find? site.name = some f) (hscript : ∀ eval, f eval ⟨site, values⟩ = script.run eval)
      (hcourse : ReflTransGen (Script.Next lib) (script, middle) (.evaluate e next, final)) :
      Asks lib ⟨.call site args s, ctx⟩ ⟨e, final⟩

theorem Expr.tooDeep_of_finish {lib : Library} {eval : Expr → Eval Expr} {e : Expr} {values : List Expr}
    {ctx : Context} (h : (e.finish lib eval values).run ctx = .tooDeep) :
    ∃ site args s, e = .call site args s ∧ (Eval.dispatch lib eval ⟨site, values⟩).run ctx = .tooDeep := by
  unfold finish at h
  split at h
  · split at h <;> cases h
  · cases h
  · exact ⟨_, _, _, rfl, h⟩
  · cases h
  · cases h

namespace Library.Scripted

variable {lib : Library} (h : lib.Scripted)
include h

section Ends

variable {ctx after : Context} {e : Expr}

theorem ends_of_run {o : Outcome Expr} {depth : Nat} (hrun : (e.evaluate lib depth).run ctx = o)
    (ho : o ≠ .tooDeep) : e.Ends lib ctx o := by
  refine ⟨depth, fun depth' hle => ?_⟩
  rcases h.approximates_evaluate hle e ctx with hdeep | hsame
  · exact absurd (hrun.symm.trans hdeep) ho
  · exact hsame.trans hrun

theorem run_of_ends {o : Outcome Expr} (he : e.Ends lib ctx o) (depth : Nat) :
    (e.evaluate lib depth).run ctx = .tooDeep ∨ (e.evaluate lib depth).run ctx = o := by
  obtain ⟨least, he⟩ := he
  refine (h.approximates_evaluate (Nat.le_max_left depth least) e ctx).imp id fun hsame => ?_
  exact hsame.symm.trans (he _ (Nat.le_max_right depth least))

theorem run_mapM_of_threads {xs values : List Expr} (hvalues : Expr.Threads lib ctx xs values after)
    (depth : Nat) : (xs.mapM (Expr.evaluate lib depth)).run ctx = .tooDeep ∨
      (xs.mapM (Expr.evaluate lib depth)).run ctx = .value values after := by
  obtain ⟨least, hrun⟩ := hvalues.run_mapM
  have happrox := Eval.Approximates.mapM (h.approximates_evaluate (Nat.le_max_left depth least)) xs ctx
  exact happrox.imp id fun hsame => hsame.symm.trans (hrun _ (Nat.le_max_right depth least))

theorem threads_of_run_mapM {xs values : List Expr} {depth : Nat}
    (hrun : (xs.mapM (Expr.evaluate lib depth)).run ctx = .value values after) :
    Expr.Threads lib ctx xs values after := by
  induction xs generalizing ctx values with
  | nil =>
    cases hrun
    exact .nil _
  | cons x xs ih =>
    rw [List.mapM_cons] at hrun
    obtain ⟨v, middle, hx, hrun⟩ := Eval.bind_eq_value_iff.mp hrun
    obtain ⟨vs, final, hxs, hrun⟩ := Eval.bind_eq_value_iff.mp hrun
    cases hrun
    exact .cons (h.ends_of_run hx nofun) (ih hxs)

end Ends

variable {depth : Nat}

theorem exists_asked_of_mapM {xs : List Expr} {ctx : Context}
    (hdeep : (xs.mapM (Expr.evaluate lib depth)).run ctx = .tooDeep) :
    ∃ before x after values middle, xs = before ++ x :: after ∧
      Expr.Threads lib ctx before values middle ∧ (x.evaluate lib depth).run middle = .tooDeep := by
  induction xs generalizing ctx with
  | nil => cases hdeep
  | cons y xs ih =>
    rw [List.mapM_cons] at hdeep
    rcases Eval.bind_eq_tooDeep_iff.mp hdeep with hy | ⟨v, next, hy, hdeep⟩
    · exact ⟨[], y, xs, [], ctx, rfl, .nil ctx, hy⟩
    · rcases Eval.bind_eq_tooDeep_iff.mp hdeep with hxs | ⟨vs, final, -, hdeep⟩
      · obtain ⟨before, x, after, values, middle, rfl, hbefore, hx⟩ := ih hxs
        exact ⟨y :: before, x, after, v :: values, middle, rfl, .cons (h.ends_of_run hy nofun) hbefore, hx⟩
      · cases hdeep

theorem exists_asked_of_script {script : Script} {ctx : Context}
    (hdeep : (script.run (Expr.evaluate lib depth)).run ctx = .tooDeep) :
    ∃ e next final, ReflTransGen (Script.Next lib) (script, ctx) (.evaluate e next, final) ∧
      (e.evaluate lib depth).run final = .tooDeep := by
  induction script generalizing ctx with
  | done r => cases r <;> cases hdeep
  | read next ih =>
    obtain ⟨e, k, final, hcourse, he⟩ := ih ctx.fields hdeep
    exact ⟨e, k, final, .head (.read next ctx) hcourse, he⟩
  | write f next ih =>
    obtain ⟨e, k, final, hcourse, he⟩ := ih hdeep
    exact ⟨e, k, final, .head (.write f next ctx) hcourse, he⟩
  | evaluate e next ih =>
    rcases Eval.bind_eq_tooDeep_iff.mp hdeep with he | ⟨r, middle, hr, hdeep⟩
    · exact ⟨e, next, ctx, .refl, Eval.attempt_eq_tooDeep_iff.mp he⟩
    · have hends := h.ends_of_run (Eval.attempt_eq_value_iff.mp hr) (Outcome.ofResult_ne_tooDeep r middle)
      obtain ⟨x, k, final, hcourse, hx⟩ := ih r hdeep
      exact ⟨x, k, final, .head (.evaluate hends) hcourse, hx⟩

theorem exists_asks_of_tooDeep {ev : Evaluation} (hdeep : ev.run lib (depth + 1) = .tooDeep) :
    ∃ ev' : Evaluation, ev.Asks lib ev' ∧ ev'.run lib depth = .tooDeep := by
  obtain ⟨e, ctx⟩ := ev
  cases href : e.isReference with
  | true =>
    obtain ⟨name, s, rfl⟩ := Expr.eq_reference href
    obtain ⟨hp, value, hv, hvalue⟩ := Eval.tooDeep_of_resolve hdeep
    exact ⟨⟨value, ctx.pend name⟩, .value hp hv, hvalue⟩
  | false =>
    change (e.step lib (Expr.evaluate lib depth)).run ctx = .tooDeep at hdeep
    rw [Expr.step_of_operands lib _ href] at hdeep
    rcases Eval.bind_eq_tooDeep_iff.mp hdeep with hoperands | ⟨values, middle, hvalues, hfinish⟩
    · obtain ⟨before, x, after, values, middle, hsplit, hbefore, hx⟩ := h.exists_asked_of_mapM hoperands
      exact ⟨⟨x, middle⟩, .operand hsplit hbefore, hx⟩
    · obtain ⟨site, args, s, rfl, hdispatch⟩ := Expr.tooDeep_of_finish hfinish
      cases hf : lib.find? site.name with
      | none =>
        rw [Eval.run_dispatch_unknown ⟨site, values⟩ hf] at hdispatch
        cases hdispatch
      | some f =>
        obtain ⟨script, hscript⟩ := h site.name f hf
        rw [Eval.dispatch_known ⟨site, values⟩ hf, hscript] at hdispatch
        rcases Eval.bind_eq_tooDeep_iff.mp hdispatch with hrun | ⟨v, final, -, hrun⟩
        · obtain ⟨x, next, final, hcourse, hx⟩ := h.exists_asked_of_script hrun
          have hargs := h.threads_of_run_mapM hvalues
          exact ⟨⟨x, final⟩, .function hargs hf (fun eval => hscript eval ⟨site, values⟩) hcourse, hx⟩
        · cases hrun

theorem run_mapM_tooDeep {before after values : List Expr} {x : Expr} {ctx middle : Context}
    (hbefore : Expr.Threads lib ctx before values middle) (hx : (x.evaluate lib depth).run middle = .tooDeep) :
    ((before ++ x :: after).mapM (Expr.evaluate lib depth)).run ctx = .tooDeep := by
  rw [List.mapM_append, Eval.bind_eq_tooDeep_iff]
  refine (h.run_mapM_of_threads hbefore depth).imp id fun hvalues => ⟨values, middle, hvalues, ?_⟩
  rw [Eval.bind_eq_tooDeep_iff, List.mapM_cons, Eval.bind_eq_tooDeep_iff]
  exact .inl (.inl hx)

theorem run_script_tooDeep {p : Script × Context} {e : Expr} {next : Except Fault Expr → Script}
    {final : Context} (hcourse : ReflTransGen (Script.Next lib) p (.evaluate e next, final))
    (he : (e.evaluate lib depth).run final = .tooDeep) :
    (p.1.run (Expr.evaluate lib depth)).run p.2 = .tooDeep := by
  -- From the evaluation at which the course arrives back to its start.
  induction hcourse using ReflTransGen.head_induction_on with
  | refl => exact Eval.bind_eq_tooDeep_iff.mpr (.inl (Eval.attempt_eq_tooDeep_iff.mpr he))
  | head hnext _ ih =>
    cases hnext with
    | read next ctx => exact ih
    | write f next ctx => exact ih
    | @evaluate x next ctx after r hx =>
      refine Eval.bind_eq_tooDeep_iff.mpr ?_
      refine (h.run_of_ends hx depth).imp Eval.attempt_eq_tooDeep_iff.mpr fun hrun => ?_
      exact ⟨r, after, Eval.attempt_eq_value_iff.mpr hrun, ih⟩

theorem run_tooDeep_of_asks {ev ev' : Evaluation} (hasks : ev.Asks lib ev')
    (hdeep : ev'.run lib depth = .tooDeep) : ev.run lib (depth + 1) = .tooDeep := by
  cases hasks with
  | @value name s value ctx hp hv =>
    have hresult := Eval.result_resolve_bound hp hv (Expr.evaluate lib depth) s
    rw [show (value.evaluate lib depth).run (ctx.pend name) = .tooDeep from hdeep] at hresult
    exact Outcome.eq_tooDeep_iff.mpr hresult
  | @operand e x ctx middle before after values hoperands hbefore =>
    have href : e.isReference = false := by
      cases e with
      | reference name s => cases before <;> cases hoperands
      | _ => rfl
    change (e.step lib (Expr.evaluate lib depth)).run ctx = .tooDeep
    rw [Expr.step_of_operands lib _ href, hoperands, Eval.bind_eq_tooDeep_iff]
    exact .inl (h.run_mapM_tooDeep hbefore hdeep)
  | @function site args values s ctx middle final f script e next hargs hf hscript hcourse =>
    change ((Expr.call site args s).step lib (Expr.evaluate lib depth)).run ctx = .tooDeep
    rw [Expr.step_of_operands lib _ rfl, Eval.bind_eq_tooDeep_iff]
    refine (h.run_mapM_of_threads hargs depth).imp id fun hvalues => ⟨values, middle, hvalues, ?_⟩
    change (Eval.dispatch lib (Expr.evaluate lib depth) ⟨site, values⟩).run middle = .tooDeep
    rw [Eval.dispatch_known ⟨site, values⟩ hf, hscript, Eval.bind_eq_tooDeep_iff]
    exact .inl (h.run_script_tooDeep hcourse hdeep)

/-- The evaluations that are in progress when an evaluation gives up are as many as there was depth. -/
theorem run_tooDeep_iff {ev : Evaluation} {depth : Nat} :
    ev.run lib depth = .tooDeep ↔
      ∃ asked, (ev :: asked).IsChain (Evaluation.Asks lib) ∧ asked.length = depth :=
  Evaluation.run_tooDeep_iff_of_step h.exists_asks_of_tooDeep h.run_tooDeep_of_asks

end Library.Scripted

end StyleValue
