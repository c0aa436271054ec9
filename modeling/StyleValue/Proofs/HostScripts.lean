import StyleValue.Proofs.StandardLibrary

set_option autoImplicit false

namespace StyleValue

/-- The public fields of a context. -/
structure Fields where
  options : Options
  output : Output
  scopes : Scopes

/-- A context as it is set up with these fields: nothing is pending. -/
def Fields.context (f : Fields) : Context where
  options := f.options
  output := f.output
  scopes := f.scopes

def Fields.mapOutput (f : Fields) (g : Output → Output) : Fields := { f with output := g f.output }

namespace Context

def fields (ctx : Context) : Fields := ⟨ctx.options, ctx.output, ctx.scopes⟩

def withFields (ctx : Context) (f : Fields) : Context := { f.context with pending := ctx.pending }

theorem eq_of_not_pending {ctx : Context} (h : ctx.pending = []) : ctx = ctx.fields.context := by
  obtain ⟨options, output, scopes, pending⟩ := ctx
  cases h
  rfl

end Context

/-- Hands out the failure of a step in place of its value. Giving up is not caught. -/
def Eval.attempt {α : Type} (m : Eval α) : Eval (Except Fault α) := fun ctx =>
  match m.run ctx with
  | .value a after => .value (.ok a) after
  | .fault f after => .value (.error f) after
  | .tooDeep => .tooDeep

/-- The operations that are still to come, up to the result. -/
inductive Script where
  | done (r : Except Fault Expr)
  | read (next : Fields → Script)
  | write (f : Fields) (next : Script)
  | evaluate (e : Expr) (next : Except Fault Expr → Script)

namespace Script

def run (eval : Expr → Eval Expr) : Script → Eval Expr
  | done r => .ofExcept r
  | read next => do
    let ctx ← Eval.context
    (next ctx.fields).run eval
  | write f next => do
    Eval.modify (·.withFields f)
    next.run eval
  | evaluate e next => do
    -- A failure does not end the script, which may pass it on or go on without the value.
    let r ← (eval e).attempt
    (next r).run eval

/-- One script after the other, which is handed the result or the failure of the first. -/
def andThen : Script → (Except Fault Expr → Script) → Script
  | done r, after => after r
  | read next, after => read fun f => (next f).andThen after
  | write f next, after => write f (next.andThen after)
  | evaluate e next, after => evaluate e fun r => (next r).andThen after

def change (g : Fields → Fields) (next : Script) : Script := read fun f => write (g f) next

def buffered (body : Script) : Script :=
  change (·.mapOutput Output.push) <| body.andThen fun r =>
    change (·.mapOutput fun o => o.pop.2) (done r)

def render (e : Expr) (next : String → Script) : Script :=
  change (fun f => f.mapOutput fun o => e.write f.options o.push) <| read fun f =>
    change (·.mapOutput fun o => o.take.2.pop.2) (next f.output.take.1)

end Script

/-- The function is a script that its call determines, with whatever evaluator. -/
def Function.Scripted (f : Function) : Prop :=
  ∃ script : Invocation → Script, ∀ eval inv, f eval inv = (script inv).run eval

def Library.Scripted (lib : Library) : Prop :=
  ∀ name f, lib.find? name = some f → f.Scripted

theorem Function.scripted_ofPure (f : Invocation → Except Fault Expr) : (ofPure f).Scripted :=
  ⟨fun inv => .done (f inv), fun _ _ => rfl⟩

theorem Library.Standard.scripted {lib : Library} (h : lib.Standard) : lib.Scripted := by
  intro name f hf
  obtain ⟨b, rfl⟩ := h.eq_ofPure hf
  exact Function.scripted_ofPure b.apply

theorem Library.Scripted.register {lib : Library} (h : lib.Scripted) {f : Function} (hf : f.Scripted)
    (name : String) : (lib.register name f).Scripted := by
  intro other g hg
  rw [find?_register] at hg
  split at hg
  · cases hg
    exact hf
  · exact h other g hg

namespace Eval

variable {α : Type}

theorem run_attempt (m : Eval α) (ctx : Context) :
    m.attempt.run ctx = match m.run ctx with
      | .value a after => .value (.ok a) after
      | .fault f after => .value (.error f) after
      | .tooDeep => .tooDeep := rfl

theorem attempt_eq_value_iff {m : Eval α} {ctx after : Context} {r : Except Fault α} :
    m.attempt.run ctx = .value r after ↔ m.run ctx = .ofResult r after := by
  rw [run_attempt]
  cases m.run ctx <;> cases r <;> simp [Outcome.ofResult]

theorem attempt_eq_tooDeep_iff {m : Eval α} {ctx : Context} :
    m.attempt.run ctx = .tooDeep ↔ m.run ctx = .tooDeep := by
  rw [run_attempt]
  cases m.run ctx <;> simp

theorem after_attempt (m : Eval α) (ctx : Context) : (m.attempt.run ctx).after? = (m.run ctx).after? := by
  rw [run_attempt]
  cases m.run ctx <;> rfl

theorem Keeps.attempt {γ : Type} {view : Context → γ} {m : Eval α} (h : m.Keeps view) :
    m.attempt.Keeps view := by
  intro ctx after ha
  rw [after_attempt] at ha
  exact h ctx after ha

end Eval

namespace Script

variable (eval : Expr → Eval Expr)

theorem run_change (g : Fields → Fields) (next : Script) (ctx : Context) :
    ((change g next).run eval).run ctx = (next.run eval).run (ctx.withFields (g ctx.fields)) := rfl

theorem run_evaluate (e : Expr) (next : Except Fault Expr → Script) (ctx : Context) :
    ((evaluate e next).run eval).run ctx = match (eval e).run ctx with
      | .value v after => ((next (.ok v)).run eval).run after
      | .fault f after => ((next (.error f)).run eval).run after
      | .tooDeep => .tooDeep := by
  change ((eval e).attempt >>= fun r => (next r).run eval).run ctx = _
  rw [Eval.run_bind, Eval.run_attempt]
  cases (eval e).run ctx <;> rfl

theorem run_andThen (script : Script) (after : Except Fault Expr → Script) :
    (script.andThen after).run eval = (script.run eval).attempt >>= fun r => (after r).run eval := by
  induction script with
  | done r => cases r <;> rfl
  | read next ih =>
    funext ctx
    exact congrFun (ih ctx.fields) ctx
  | write f next ih =>
    funext ctx
    exact congrFun ih (ctx.withFields f)
  | evaluate e next ih =>
    funext ctx
    change ((evaluate e fun r => (next r).andThen after).run eval).run ctx =
      (((evaluate e next).run eval).attempt >>= fun r => (after r).run eval).run ctx
    rw [run_evaluate, Eval.run_bind, Eval.run_attempt, run_evaluate]
    cases (eval e).run ctx with
    | value v middle => exact congrFun (ih (.ok v)) middle
    | fault f middle => exact congrFun (ih (.error f)) middle
    | tooDeep => rfl

theorem run_buffered (body : Script) : (buffered body).run eval = .buffered (body.run eval) := by
  funext ctx
  change ((buffered body).run eval).run ctx = (Eval.buffered (body.run eval)).run ctx
  rw [buffered, run_change, run_andThen, Eval.run_bind, Eval.run_attempt, Eval.buffered, Eval.run_between]
  have hpush : ctx.withFields (ctx.fields.mapOutput Output.push) = { ctx with output := ctx.output.push } :=
    rfl
  rw [hpush]
  cases (body.run eval).run { ctx with output := ctx.output.push } <;> rfl

theorem run_render (e : Expr) (next : String → Script) :
    (render e next).run eval = Eval.render e >>= fun text => (next text).run eval := rfl

end Script

end StyleValue
