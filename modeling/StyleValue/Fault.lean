import StyleValue.Expr.Basic

set_option autoImplicit false

namespace StyleValue

inductive Arity where
  /-- At least `least` and, if there is a bound, at most `most`. -/
  | range (least : Nat) (most : Option Nat)
  | oneOf (counts : List Nat)
deriving DecidableEq, Repr

namespace Arity

def exactly (n : Nat) : Arity := range n (some n)

def accepts : Arity → Nat → Bool
  | range least most, n => least ≤ n && most.all (n ≤ ·)
  | oneOf counts, n => counts.contains n

def alternatives : List Nat → String
  | [] => "0"
  | [n] => toString n
  | [n, last] => s!"{n} or {last}"
  | n :: rest => s!"{n}, " ++ alternatives rest

def text : Arity → String
  | range least none => s!"at least {least}"
  | range least (some most) => if most = least then toString least else s!"{least} to {most}"
  | oneOf counts => alternatives counts

end Arity

inductive Cause where
  | missing (parameter : String)
  | undefined (name : String)
  /-- A variable whose value leads back to itself. -/
  | cyclic (name : String)
  | arity (function : String) (expected : Arity) (got : Nat)
  /-- An argument of the wrong kind; positions count from one. -/
  | argument (function : String) (position : Nat) (expected got : String)
  | unitClash (function : String) (left right : String)
  | operands (op : Operator) (left right : String)
  | divisionByZero
  | notFinite (operation : String)
  /-- A failure in the words of the function that reports it. -/
  | custom (text : String)
deriving DecidableEq, Repr

def Cause.message : Cause → String
  | missing parameter => s!"invalid argument: `{parameter}` must be provided"
  | undefined name => s!"undefined variable: @{name}"
  | cyclic name => s!"recursive variable definition for @{name}"
  | arity function expected got => s!"{function}() expects {expected.text} argument(s), got {got}"
  | argument function position expected got =>
    s!"{function}() expects a {expected} as argument {position}, got {got}"
  | unitClash function left right => s!"{function}() cannot compare `{left}` with `{right}`"
  | operands op left right => s!"operator `{op.symbol}` cannot be applied to {left} and {right}"
  | divisionByZero => "division by zero"
  | notFinite operation => s!"{operation} does not produce a finite number"
  | custom text => text

structure Fault where
  cause : Cause
  span : Option Span := none
deriving DecidableEq, Repr

namespace Fault

def locate (f : Fault) (s : Span) : Fault := { f with span := some s }

def locateIfNone (f : Fault) (s : Span) : Fault := { f with span := some (f.span.getD s) }

end Fault

def Cause.atSpan (c : Cause) (s : Span) : Fault := ⟨c, some s⟩

end StyleValue
