import StyleValue.Context

set_option autoImplicit false

namespace StyleValue

structure Invocation where
  site : Site
  args : List Expr

namespace Invocation

def name (inv : Invocation) : String := inv.site.name

def span (inv : Invocation) : Span := inv.site.span

def answer (inv : Invocation) (v : Atom) : Expr := .atom v inv.span

def expect (inv : Invocation) (arity : Arity) : Except Fault Unit :=
  if arity.accepts inv.args.length then .ok ()
  else .error ((Cause.arity inv.name arity inv.args.length).atSpan inv.span)

/-- Blames the argument at `index`, which is `got` if there is one. -/
def mismatch (inv : Invocation) (index : Nat) (expected : String) (got : Option Expr) : Fault :=
  (Cause.argument inv.name (index + 1) expected (got.elim "nothing" Expr.kind)).atSpan
    (got.elim inv.span Expr.span)

def read {α : Type} (inv : Invocation) (expected : String) (view : Expr → Option α) (index : Nat) :
    Except Fault α :=
  match inv.args[index]?.bind view with
  | some a => .ok a
  | none => .error (inv.mismatch index expected inv.args[index]?)

def number (inv : Invocation) : Nat → Except Fault Number := inv.read "number" Expr.number?

def color (inv : Invocation) : Nat → Except Fault Color := inv.read "color" Expr.color?

def text (inv : Invocation) : Nat → Except Fault String := inv.read "string" Expr.text?

def finite (inv : Invocation) (x : Float) : Except Fault Float :=
  if x.isFinite then .ok x
  else .error ((Cause.notFinite (inv.name ++ "()")).atSpan inv.span)

end Invocation

abbrev Function := (Expr → Eval Expr) → Invocation → Eval Expr

def Function.ofPure (f : Invocation → Except Fault Expr) : Function := fun _ inv => .ofExcept (f inv)

/-- Functions by their names in lower case. -/
structure Library where
  table : Table Function

namespace Library

def empty : Library := ⟨.empty⟩

def fold (name : String) : String := name.map Char.toLower

def find? (lib : Library) (name : String) : Option Function := lib.table.find? (fold name)

def contains (lib : Library) (name : String) : Bool := lib.table.contains (fold name)

def register (lib : Library) (name : String) (f : Function) : Library :=
  ⟨lib.table.insert (fold name) f⟩

def size (lib : Library) : Nat := lib.table.size

def isEmpty (lib : Library) : Bool := lib.size == 0

def names (lib : Library) : List String := lib.table.names.mergeSort fun a b => decide (a ≤ b)

end Library

end StyleValue
