import StyleValue.Arithmetic
import StyleValue.Expr.Pass
import StyleValue.Library.Basic

/-!
Evaluation. One step says what becomes of a node, given an evaluator for what it consists of or refers to;
`Expr.evaluate` closes the recursion over the depth to which evaluations may nest. References are resolved
when they are met, in the scopes that are open then, and a reference that is met within its own value fails.
-/

set_option autoImplicit false

namespace StyleValue

namespace Eval

def resolve (eval : Expr → Eval Expr) (name : String) (span : Span) : Eval Expr := do
  let ctx ← context
  if name ∈ ctx.pending then
    fail ((Cause.cyclic name).atSpan span)
  else
    match ctx.scopes.lookup name with
    | none => fail ((Cause.undefined name).atSpan span)
    | some value => do
      let result ← between (fun ctx => { ctx with pending := name :: ctx.pending })
        (fun ctx => { ctx with pending := ctx.pending.tail }) (eval value)
      return result.relocate span

def operate (eval : Expr → Eval Expr) (l : Expr) (op : Operator) (r : Expr) (span : Span) :
    Eval Expr := do
  let a ← eval l
  let b ← eval r
  match a.combine op b with
  | .ok v => return .atom v span
  | .error cause => fail (cause.atSpan span)

def passthrough (inv : Invocation) : Eval Expr := do
  let ctx ← context
  let text ← buffered do
    append inv.name
    append "("
    emitJoined ctx.options.separator inv.args
    append ")"
    take
  return inv.answer (.text text)

def dispatch (lib : Library) (eval : Expr → Eval Expr) (inv : Invocation) : Eval Expr :=
  match lib.find? inv.name with
  | some f => do return (← f eval inv).relocate inv.span
  | none => passthrough inv

/-- Evaluates the arguments from left to right, with their arithmetic suppressed if strict math is on at the
outset, and then the call. -/
def call (lib : Library) (eval : Expr → Eval Expr) (site : Site) (args : List Expr) : Eval Expr := do
  let ctx ← context
  let args := if ctx.options.strictMath then args.map Expr.suppress else args
  let values ← args.mapM eval
  dispatch lib eval ⟨site, values⟩

end Eval

namespace Expr

def step (lib : Library) (eval : Expr → Eval Expr) : Expr → Eval Expr
  | .atom v s => pure (.atom v s)
  | .reference name s => Eval.resolve eval name s
  | .operation l op r s => Eval.operate eval l op r s
  | .deferred l op r s => pure (.deferred l op r s)
  | .call site args _ => Eval.call lib eval site args
  | .list items s => do return .list (← items.mapM eval) s

def evaluate (lib : Library) : Nat → Expr → Eval Expr
  | 0, _ => .tooDeep
  | depth + 1, e => e.step lib (evaluate lib depth)

end Expr

def Site.withoutContext (site : Site) : Fault := (Cause.missing "context").atSpan site.span

end StyleValue
