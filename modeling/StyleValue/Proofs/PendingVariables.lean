import StyleValue.Proofs.AskedEvaluations

set_option autoImplicit false

namespace StyleValue

open Relation

namespace Eval

variable {α β : Type} {m m' : Eval α}

/-- The steps are the same wherever no variable is pending twice. -/
def AgreesUnrepeated (m m' : Eval α) : Prop := ∀ ctx : Context, ctx.pending.Nodup → m'.run ctx = m.run ctx

theorem AgreesUnrepeated.refl (m : Eval α) : m.AgreesUnrepeated m := fun _ _ => rfl

theorem AgreesUnrepeated.bind {f f' : α → Eval β} (h : m.AgreesUnrepeated m')
    (hkeeps : m.Keeps Context.pending) (hf : ∀ a, (f a).AgreesUnrepeated (f' a)) :
    (m >>= f).AgreesUnrepeated (m' >>= f') := by
  intro ctx hctx
  rw [run_bind, run_bind, h ctx hctx]
  cases hrun : m.run ctx with
  | value a after =>
    have hafter : after.pending = ctx.pending := hkeeps ctx after (by rw [hrun]; rfl)
    exact hf a after (hafter ▸ hctx)
  | fault f after => rfl
  | tooDeep => rfl

theorem AgreesUnrepeated.mapM {g g' : α → Eval β} (h : ∀ a, (g a).AgreesUnrepeated (g' a))
    (hkeeps : ∀ a, (g a).Keeps Context.pending) (as : List α) :
    (as.mapM g).AgreesUnrepeated (as.mapM g') := by
  induction as with
  | nil => exact .refl _
  | cons a as ih =>
    rw [List.mapM_cons, List.mapM_cons]
    exact (h a).bind (hkeeps a) fun b => ih.bind (.mapM hkeeps as) fun bs => .refl _

theorem AgreesUnrepeated.attempt (h : m.AgreesUnrepeated m') : m.attempt.AgreesUnrepeated m'.attempt := by
  intro ctx hctx
  rw [run_attempt, run_attempt, h ctx hctx]

theorem agreesUnrepeated_resolve {eval eval' : Expr → Eval Expr}
    (h : ∀ e, (eval e).AgreesUnrepeated (eval' e)) (name : String) (s : Span) :
    (resolve eval name s).AgreesUnrepeated (resolve eval' name s) := by
  intro ctx hctx
  by_cases hpending : name ∈ ctx.pending
  · rw [run_resolve_pending hpending, run_resolve_pending hpending]
  · cases hvalue : ctx.scopes.lookup name with
    | none => rw [run_resolve_unbound hpending hvalue, run_resolve_unbound hpending hvalue]
    | some value =>
      have hpend : (ctx.pend name).pending.Nodup := List.nodup_cons.mpr ⟨hpending, hctx⟩
      rw [run_resolve_bound hpending hvalue, run_resolve_bound hpending hvalue, run_bind, run_bind,
        run_between, run_between, h value (ctx.pend name) hpend]

end Eval

theorem Script.keeps_pending {eval : Expr → Eval Expr} (heval : ∀ e, (eval e).Keeps Context.pending)
    (script : Script) : (script.run eval).Keeps Context.pending := by
  induction script with
  | done r => exact (Eval.restores_ofExcept r).keeps Context.pending
  | read next ih =>
    intro ctx after ha
    exact ih ctx.fields ctx after ha
  | write f next ih =>
    intro ctx after ha
    exact ih (ctx.withFields f) after ha
  | evaluate e next ih => exact (heval e).attempt.bind ih

theorem Script.agreesUnrepeated_run {eval eval' : Expr → Eval Expr}
    (h : ∀ e, (eval e).AgreesUnrepeated (eval' e)) (hkeeps : ∀ e, (eval e).Keeps Context.pending)
    (script : Script) : (script.run eval).AgreesUnrepeated (script.run eval') := by
  induction script with
  | done r => exact .refl _
  | read next ih => exact fun ctx => ih ctx.fields ctx
  | write f next ih => exact fun ctx => ih (ctx.withFields f)
  | evaluate e next ih => exact (h e).attempt.bind (hkeeps e).attempt ih

/-- Does something else in a context in which a variable is pending twice. -/
def Eval.unlessRepeated {α : Type} (refuse m : Eval α) : Eval α := fun ctx =>
  if ctx.pending.Nodup then m.run ctx else refuse.run ctx

/-- The evaluator with such a test before each evaluation, those that functions ask for included. -/
def Expr.evaluateUnlessRepeated (lib : Library) (refuse : Expr → Eval Expr) : Nat → Expr → Eval Expr
  | 0, e => .unlessRepeated (refuse e) .tooDeep
  | depth + 1, e => .unlessRepeated (refuse e) (e.step lib (evaluateUnlessRepeated lib refuse depth))

namespace Library.Scripted

variable {lib : Library} (h : lib.Scripted)
include h

theorem keeps_pending (depth : Nat) (e : Expr) : (e.evaluate lib depth).Keeps Context.pending := by
  induction depth generalizing e with
  | zero => exact Eval.restores_tooDeep.keeps Context.pending
  | succ depth ih =>
    refine Expr.keeps_step Context.unwinds_pending (fun name f hf inv => ?_) ih e
    obtain ⟨script, hscript⟩ := h name f hf
    rw [hscript]
    exact (script inv).keeps_pending ih

section Step

variable {eval eval' : Expr → Eval Expr} (heval : ∀ e, (eval e).AgreesUnrepeated (eval' e))
  (hkeeps : ∀ e, (eval e).Keeps Context.pending)
include heval hkeeps

theorem agreesUnrepeated_dispatch (inv : Invocation) :
    (Eval.dispatch lib eval inv).AgreesUnrepeated (Eval.dispatch lib eval' inv) := by
  cases hf : lib.find? inv.name with
  | none =>
    intro ctx _
    rw [Eval.run_dispatch_unknown inv hf, Eval.run_dispatch_unknown inv hf]
  | some f =>
    obtain ⟨script, hscript⟩ := h inv.name f hf
    rw [Eval.dispatch_known inv hf, Eval.dispatch_known inv hf, hscript, hscript]
    exact ((script inv).agreesUnrepeated_run heval hkeeps).bind ((script inv).keeps_pending hkeeps)
      fun e => .refl _

theorem agreesUnrepeated_finish (e : Expr) (values : List Expr) :
    (e.finish lib eval values).AgreesUnrepeated (e.finish lib eval' values) := by
  unfold Expr.finish
  split
  · exact .refl _
  · exact .refl _
  · exact h.agreesUnrepeated_dispatch heval hkeeps _
  · exact .refl _
  · exact .refl _

/-- From a context in which no variable is pending twice, a step asks its evaluator in no context in which one
is. -/
theorem agreesUnrepeated_step (e : Expr) : (e.step lib eval).AgreesUnrepeated (e.step lib eval') := by
  intro ctx
  cases he : e.isReference with
  | true =>
    obtain ⟨name, s, rfl⟩ := Expr.eq_reference he
    exact Eval.agreesUnrepeated_resolve heval name s ctx
  | false =>
    rw [Expr.step_of_operands lib eval he, Expr.step_of_operands lib eval' he]
    exact (Eval.AgreesUnrepeated.mapM heval hkeeps _).bind (.mapM hkeeps _)
      (h.agreesUnrepeated_finish heval hkeeps e) ctx

end Step

theorem agreesUnrepeated_evaluate (refuse : Expr → Eval Expr) (depth : Nat) (e : Expr) :
    (e.evaluate lib depth).AgreesUnrepeated (e.evaluateUnlessRepeated lib refuse depth) := by
  induction depth generalizing e with
  | zero => exact fun ctx hctx => if_pos hctx
  | succ depth ih =>
    intro ctx hctx
    refine (if_pos hctx).trans ?_
    exact h.agreesUnrepeated_step ih (h.keeps_pending depth) e ctx hctx

theorem pending_of_ends {e : Expr} {ctx after : Context} {r : Except Fault Expr}
    (he : e.Ends lib ctx (.ofResult r after)) : after.pending = ctx.pending := by
  obtain ⟨least, hrun⟩ := he
  refine h.keeps_pending least e ctx after ?_
  rw [hrun least (Nat.le_refl least)]
  cases r <;> rfl

theorem pending_of_threads {xs values : List Expr} {ctx after : Context}
    (hvalues : Expr.Threads lib ctx xs values after) : after.pending = ctx.pending := by
  induction hvalues with
  | nil ctx => rfl
  | @cons ctx middle after x v xs values hx _ ih =>
    have hmiddle : middle.pending = ctx.pending := h.pending_of_ends (r := .ok v) hx
    exact ih.trans hmiddle

theorem pending_of_next {p p' : Script × Context} (hnext : Script.Next lib p p') :
    p'.2.pending = p.2.pending := by
  cases hnext with
  | read next ctx => rfl
  | write f next ctx => rfl
  | evaluate he => exact h.pending_of_ends he

theorem pending_of_course {p p' : Script × Context} (hcourse : ReflTransGen (Script.Next lib) p p') :
    p'.2.pending = p.2.pending := by
  induction hcourse with
  | refl => rfl
  | tail _ hnext ih => exact (h.pending_of_next hnext).trans ih

theorem pending_of_asks {ev ev' : Evaluation} (hasks : ev.Asks lib ev') :
    ev'.ctx.pending = ev.ctx.pending ∨
      ∃ name ∉ ev.ctx.pending, ev'.ctx.pending = name :: ev.ctx.pending := by
  cases hasks with
  | @value name s value ctx hpending hvalue => exact .inr ⟨name, hpending, rfl⟩
  | operand hoperands hbefore => exact .inl (h.pending_of_threads hbefore)
  | function hargs hf hscript hcourse =>
    exact .inl ((h.pending_of_course hcourse).trans (h.pending_of_threads hargs))

theorem nodup_of_asks {ev ev' : Evaluation} (hasks : ev.Asks lib ev') (hev : ev.ctx.pending.Nodup) :
    ev'.ctx.pending.Nodup := by
  rcases h.pending_of_asks hasks with hsame | ⟨name, hname, hpend⟩
  · rw [hsame]
    exact hev
  · rw [hpend]
    exact List.nodup_cons.mpr ⟨hname, hev⟩

theorem nodup_of_isChain {ev : Evaluation} {asked : List Evaluation}
    (hchain : (ev :: asked).IsChain (Evaluation.Asks lib)) (hev : ev.ctx.pending.Nodup) :
    ∀ ev' ∈ asked, ev'.ctx.pending.Nodup := by
  induction asked generalizing ev with
  | nil => simp
  | cons next asked ih =>
    obtain ⟨hasks, hchain⟩ := List.isChain_cons_cons.mp hchain
    have hnext := h.nodup_of_asks hasks hev
    exact List.forall_mem_cons.mpr ⟨hnext, ih hchain hnext⟩

end Library.Scripted

/-- However an evaluation ends, what is pending is as it was. No evaluation that is in progress has a variable
pending twice: what the evaluator would do in such a context makes no difference. -/
theorem pending_variables_unwind {lib : Library} (h : lib.Scripted) :
    (∀ {p p' : Script × Context}, Script.Next lib p p' → p'.2.pending = p.2.pending) ∧
    (∀ (e : Expr) (depth : Nat), (e.evaluate lib depth).Keeps Context.pending) ∧
    (∀ {eval eval' : Expr → Eval Expr}, (∀ e, (eval e).Keeps Context.pending) →
      (∀ (e : Expr) (ctx : Context), ctx.pending.Nodup → (eval' e).run ctx = (eval e).run ctx) →
      ∀ (e : Expr) (ctx : Context), ctx.pending.Nodup →
        (e.step lib eval').run ctx = (e.step lib eval).run ctx) ∧
    (∀ (refuse : Expr → Eval Expr) (e : Expr) (depth : Nat) (ctx : Context), ctx.pending.Nodup →
      (e.evaluateUnlessRepeated lib refuse depth).run ctx = (e.evaluate lib depth).run ctx) ∧
    (∀ {ev : Evaluation} {asked : List Evaluation}, (ev :: asked).IsChain (Evaluation.Asks lib) →
      ev.ctx.pending.Nodup → ∀ ev' ∈ asked, ev'.ctx.pending.Nodup) ∧
    (∀ {ev : Evaluation} {depth : Nat}, ev.run lib depth = .tooDeep ↔
      ∃ asked, (ev :: asked).IsChain (Evaluation.Asks lib) ∧ asked.length = depth) ∧
    ∀ {script later : Script} {start : Fields} {now : Context},
      ReflTransGen (Script.Next lib) (script, start.context) (later, now) → now.pending = [] ∧
        ∀ (e : Expr) (depth : Nat),
          (e.evaluate lib depth).run now = (e.evaluate lib depth).run now.fields.context := by
  refine ⟨h.pending_of_next, fun e depth => h.keeps_pending depth e, ?_, ?_, h.nodup_of_isChain,
    h.run_tooDeep_iff, fun hcourse => ?_⟩
  · exact fun hkeeps heval e ctx hctx => h.agreesUnrepeated_step heval hkeeps e ctx hctx
  · exact fun refuse e depth ctx hctx => h.agreesUnrepeated_evaluate refuse depth e ctx hctx
  · have hnone := h.pending_of_course hcourse
    refine ⟨hnone, fun e depth => ?_⟩
    exact congrArg (e.evaluate lib depth).run (Context.eq_of_not_pending hnone)

/-- A function that meets its own variable, hides the failure and binds the variable anew. Before that, the
value of another variable is asked for that has none. -/
theorem pending_variables_unwind_after_failures :
    let red : Expr := .atom (.keyword "red") ⟨0, 3⟩
    let blue : Expr := .atom (.keyword "blue") ⟨4, 8⟩
    let a : Expr := .reference "a" ⟨9, 11⟩
    let retry : Script := .buffered <| .evaluate a fun _ =>
      .change (fun f => { f with scopes := f.scopes.define "a" red }) (.done (.ok blue))
    let lib : Library := .register .empty "retry" fun eval _ => retry.run eval
    let start : Fields := ⟨{}, {}, Scopes.define {} "a" (.call ⟨"retry", ⟨12, 17⟩⟩ [] ⟨12, 19⟩)⟩
    let script : Script := .evaluate (.reference "b" ⟨20, 22⟩) fun _ => .evaluate a .done
    let now : Context := { start.context with scopes := start.scopes.define "a" red }
    let again : Evaluation := ⟨a, { start.context.pend "a" with output := start.output.push }⟩
    let asked : List Evaluation :=
      [⟨.call ⟨"retry", ⟨12, 17⟩⟩ [] ⟨12, 19⟩, start.context.pend "a"⟩, again]
    lib.Scripted ∧
      (Evaluation.mk a start.context :: asked).IsChain (Evaluation.Asks lib) ∧ again.ctx.pending.Nodup ∧
      (a.evaluateUnlessRepeated lib (fun _ => .tooDeep) 4).run start.context =
        .value (blue.relocate ⟨9, 11⟩) now ∧
      ReflTransGen (Script.Next lib) (script, start.context) (.done (.ok (blue.relocate ⟨9, 11⟩)), now) ∧
      (a.evaluate lib 2).run now.fields.context = .value (red.relocate ⟨9, 11⟩) now := by
  intro red blue a retry lib start script now again asked
  have hfind : lib.find? "retry" = some fun eval _ => retry.run eval := by
    rw [Library.find?_register, if_pos rfl]
  have hlib : lib.Scripted :=
    (Library.Standard.scripted (.inl rfl)).register ⟨fun _ => retry, fun _ _ => rfl⟩ "retry"
  have hcall : ((Expr.call ⟨"retry", ⟨12, 17⟩⟩ [] ⟨12, 19⟩).evaluate lib 3).run (start.context.pend "a") =
      .value (blue.relocate ⟨12, 17⟩) (now.pend "a") := by
    change (Eval.dispatch lib (Expr.evaluate lib 2) ⟨⟨"retry", ⟨12, 17⟩⟩, []⟩).run _ = _
    rw [Eval.dispatch_known _ hfind]
    rfl
  have hvalue : (a.evaluate lib 4).run start.context = .value (blue.relocate ⟨9, 11⟩) now := by
    change (Eval.resolve (Expr.evaluate lib 3) "a" _).run start.context = _
    rw [Eval.run_resolve_bound (by decide) rfl, Eval.run_bind, Eval.run_between, hcall]
    rfl
  have hmissing : ((Expr.reference "b" ⟨20, 22⟩).evaluate lib 1).run start.context =
      .fault ((Cause.undefined "b").atSpan ⟨20, 22⟩) start.context := rfl
  have hcourse : ReflTransGen (Script.Next lib) (script, start.context)
      (.done (.ok (blue.relocate ⟨9, 11⟩)), now) := by
    refine .head (.evaluate (r := .error _) (hlib.ends_of_run hmissing nofun)) ?_
    exact .single (.evaluate (r := .ok _) (hlib.ends_of_run hvalue nofun))
  have hchain : (Evaluation.mk a start.context :: asked).IsChain (Evaluation.Asks lib) := by
    refine .cons_cons (.value (by decide) rfl) (.cons_cons ?_ (.singleton again))
    exact .function (.nil _) hfind (fun _ => rfl) (.head (.read _ _) (.single (.write _ _ _)))
  obtain ⟨-, -, -, hguarded, hnodup, -, hfresh⟩ := pending_variables_unwind hlib
  refine ⟨hlib, hchain, hnodup hchain List.nodup_nil again (by simp [asked]), ?_, hcourse, ?_⟩
  · exact (hguarded _ a 4 start.context List.nodup_nil).trans hvalue
  rw [← (hfresh hcourse).2 a 2]
  rfl

end StyleValue
