import StyleValue.Expr.Basic
import StyleValue.Table

/-!
Passes over expressions. A pass is asked at each node, before its parts and from left to right, whether to
put another expression in its place or to go on with the parts, and it carries a state from node to node.
Suppression and substitution are the two that come with evaluation.
-/

set_option autoImplicit false

namespace StyleValue

inductive Step where
  /-- Put this in its place and leave its parts alone. -/
  | replace (e : Expr)
  /-- Keep the node and visit its parts. -/
  | descend

/-- The state is updated at the node before any part is visited. -/
structure Pass (σ : Type) where
  enter : Expr → StateM σ Step

namespace Pass

variable {σ : Type}

def enterOr (p : Pass σ) (e : Expr) (parts : StateM σ Expr) : StateM σ Expr := do
  match ← p.enter e with
  | .replace r => return r
  | .descend => parts

mutual

/-- Visits the parts of a node but not the node. Those of a deferred operation are its operands. -/
def accept (p : Pass σ) : Expr → StateM σ Expr
  | .atom v s => pure (.atom v s)
  | .reference n s => pure (.reference n s)
  | .operation l op r s => do
    let l' ← p.enterOr l (p.accept l)
    let r' ← p.enterOr r (p.accept r)
    return .operation l' op r' s
  | .deferred l op r s => do
    let l' ← p.enterOr l (p.accept l)
    let r' ← p.enterOr r (p.accept r)
    return .deferred l' op r' s
  | .call site args s => return .call site (← p.acceptEach args) s
  | .list items s => return .list (← p.acceptEach items) s

def acceptEach (p : Pass σ) : List Expr → StateM σ (List Expr)
  | [] => pure []
  | e :: es => do
    let e' ← p.enterOr e (p.accept e)
    let es' ← p.acceptEach es
    return e' :: es'

end

def visit (p : Pass σ) (e : Expr) : StateM σ Expr := p.enterOr e (p.accept e)

def visitAll (p : Pass σ) (es : List Expr) : StateM σ (List Expr) := p.acceptEach es

def idle (σ : Type) : Pass σ := ⟨fun _ => pure .descend⟩

end Pass

/-- Defers an operation and goes no further, neither below it nor below one that is deferred already. -/
def suppression : Pass Unit where
  enter
    | .operation l op r s => pure (.replace (.deferred l op r s))
    | e@(.deferred _ _ _ _) => pure (.replace e)
    | _ => pure .descend

def Expr.suppress (e : Expr) : Expr := ((suppression.visit e).run ()).1

/-- Values by the name of the reference, without the at sign. -/
abbrev Bindings := Table Expr

/-- Replaces bound references wherever they stand, below deferred operations too. The state counts them. -/
def substitution (bindings : Bindings) : Pass Nat where
  enter
    | .reference name s =>
      match bindings.find? name with
      | some value => do
        modify (· + 1)
        return .replace (value.relocate s)
      | none => return .descend
    | _ => return .descend

def Expr.substitute (bindings : Bindings) (e : Expr) : Expr × Nat :=
  ((substitution bindings).visit e).run 0

end StyleValue
