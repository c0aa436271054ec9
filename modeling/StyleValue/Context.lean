import StyleValue.Css
import StyleValue.Expr.Pass
import StyleValue.Fault

/-!
The context of an evaluation, its scopes included, and steps that run in one. A step ends with a value or a
failure and with the context as it then stands, or it gives up because expressions nest too deeply; in
particular a failure undoes nothing. Steps form a lawful monad.
-/

set_option autoImplicit false

namespace StyleValue

/-- The open scopes, innermost first, inside the global one. -/
structure Scopes where
  inner : List Bindings := []
  global : Bindings := .empty

namespace Scopes

def enter (s : Scopes) : Scopes := { s with inner := .empty :: s.inner }

def leave (s : Scopes) : Scopes := { s with inner := s.inner.tail }

def depth (s : Scopes) : Nat := s.inner.length + 1

def define (s : Scopes) (name : String) (value : Expr) : Scopes :=
  match s.inner with
  | [] => { s with global := s.global.insert name value }
  | scope :: outer => { s with inner := scope.insert name value :: outer }

def lookup (s : Scopes) (name : String) : Option Expr :=
  (s.inner.findSome? (·.find? name)).or (s.global.find? name)

end Scopes

structure Context where
  options : Options := {}
  output : Output := {}
  scopes : Scopes := {}
  /-- The variables whose values are being evaluated, innermost first. -/
  pending : List String := []

inductive Outcome (α : Type) where
  | value (a : α) (ctx : Context)
  | fault (f : Fault) (ctx : Context)
  | tooDeep

def Eval (α : Type) : Type := Context → Outcome α

namespace Eval

variable {α β : Type}

def run (m : Eval α) (ctx : Context) : Outcome α := m ctx

instance : Monad Eval where
  pure a := fun ctx => .value a ctx
  bind m f := fun ctx =>
    match m ctx with
    | .value a ctx' => f a ctx'
    | .fault e ctx' => .fault e ctx'
    | .tooDeep => .tooDeep

instance : LawfulMonad Eval := LawfulMonad.mk'
  _
  (fun m => funext fun ctx => by
    change (match m ctx with
      | .value a ctx' => Outcome.value a ctx'
      | .fault e ctx' => .fault e ctx'
      | .tooDeep => .tooDeep) = m ctx
    cases m ctx <;> rfl)
  (fun _ _ => rfl)
  (fun m f g => funext fun ctx => by
    change (match (match m ctx with
        | .value a ctx' => f a ctx'
        | .fault e ctx' => .fault e ctx'
        | .tooDeep => .tooDeep) with
      | .value b ctx' => g b ctx'
      | .fault e ctx' => .fault e ctx'
      | .tooDeep => .tooDeep) = _
    cases h : m ctx <;> simp [bind, h])

def tooDeep : Eval α := fun _ => .tooDeep

def fail (f : Fault) : Eval α := fun ctx => .fault f ctx

def context : Eval Context := fun ctx => .value ctx ctx

def modify (f : Context → Context) : Eval Unit := fun ctx => .value () (f ctx)

def ofExcept : Except Fault α → Eval α
  | .ok a => pure a
  | .error f => fail f

/-- Runs a step between two changes of the context. The second is made after a failure too. -/
def between (before after : Context → Context) (m : Eval α) : Eval α := fun ctx =>
  match m (before ctx) with
  | .value a ctx' => .value a (after ctx')
  | .fault f ctx' => .fault f (after ctx')
  | .tooDeep => .tooDeep

def output (f : Output → Output) : Eval Unit := modify fun ctx => { ctx with output := f ctx.output }

def append (text : String) : Eval Unit := output (·.append text)

def take : Eval String := fun ctx =>
  .value ctx.output.take.1 { ctx with output := ctx.output.take.2 }

/-- Runs a step with a buffer of its own, which is closed on every way out. -/
def buffered (m : Eval α) : Eval α :=
  between (fun ctx => { ctx with output := ctx.output.push })
    (fun ctx => { ctx with output := ctx.output.pop.2 }) m

def emit (e : Expr) : Eval Unit :=
  modify fun ctx => { ctx with output := e.write ctx.options ctx.output }

def emitJoined (separator : String) (es : List Expr) : Eval Unit :=
  modify fun ctx => { ctx with output := Expr.writeJoined ctx.options separator es ctx.output }

def render (e : Expr) : Eval String := buffered do
  emit e
  take

end Eval

end StyleValue
