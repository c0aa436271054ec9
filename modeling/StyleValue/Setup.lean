import StyleValue.Library.Functions

set_option autoImplicit false

namespace StyleValue

inductive Builtin where
  | percentage
  | round
  | ceil
  | floor
  | abs
  | sqrt
  | min
  | max
  | unit
  | rgb
  | rgba
  | e
deriving DecidableEq, Repr

namespace Builtin

def all : List Builtin :=
  [percentage, round, ceil, floor, abs, sqrt, min, max, unit, rgb, rgba, e]

def name : Builtin → String
  | percentage => "percentage"
  | round => "round"
  | ceil => "ceil"
  | floor => "floor"
  | abs => "abs"
  | sqrt => "sqrt"
  | min => "min"
  | max => "max"
  | unit => "unit"
  | rgb => "rgb"
  | rgba => "rgba"
  | e => "e"

def apply : Builtin → Invocation → Except Fault Expr
  | percentage => Library.percentage
  | round => Library.round
  | ceil => Library.mapNumber Decimal.ceil
  | floor => Library.mapNumber Decimal.floor
  | abs => Library.mapNumber Float.abs
  | sqrt => Library.mapNumber Float.sqrt
  | min => Library.least
  | max => Library.greatest
  | unit => Library.withUnit
  | rgb => Library.rgb
  | rgba => Library.rgba
  | e => Library.unquote

theorem mem_all (b : Builtin) : b ∈ all := by
  cases b <;> simp [all]

end Builtin

def Library.builtin : Library :=
  Builtin.all.foldl (fun lib b => lib.register b.name (.ofPure b.apply)) .empty

structure Setup where
  options : Options := {}
  /-- The builtin library, unless another one is chosen. -/
  library : Library := .builtin
  globals : List (String × Expr) := []

/-- Nothing is written yet and nothing pending. -/
def Setup.context (s : Setup) : Context where
  options := s.options
  scopes := s.globals.foldl (fun scopes v => scopes.define v.1 v.2) {}

end StyleValue
