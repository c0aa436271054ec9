import StyleValue.Expr.Basic
import StyleValue.Fault

set_option autoImplicit false

namespace StyleValue

def requireFinite (operation : String) (x : Float) : Except Cause Float :=
  if x.isFinite then .ok x else .error (.notFinite operation)

namespace Operator

def value (op : Operator) (a b : Float) : Float :=
  match op with
  | add => a + b
  | sub => a - b
  | mul => a * b
  | div => a / b

/-- A zero divisor, of either sign, is found before an infinite result. -/
def apply (op : Operator) (a b : Float) : Except Cause Float :=
  if op = div ∧ b == 0 then .error .divisionByZero
  else requireFinite s!"`{op.symbol}`" (op.value a b)

end Operator

namespace Number

def combine (op : Operator) (a b : Number) : Except Cause Number := do
  return ⟨← op.apply a.value b.value, a.unit.or b.unit⟩

end Number

namespace Color

def combine (op : Operator) (a b : Color) : Except Cause Color := do
  return {
    red := ← op.apply a.red b.red
    green := ← op.apply a.green b.green
    blue := ← op.apply a.blue b.blue
    alpha := a.alpha * (1 - b.alpha) + b.alpha }

def scale (op : Operator) (c : Color) (x : Float) : Except Cause Color := do
  return {
    red := ← op.apply c.red x
    green := ← op.apply c.green x
    blue := ← op.apply c.blue x
    alpha := c.alpha }

end Color

/-- A number may stand before a color where the operands may change places. -/
def Expr.combine (l : Expr) (op : Operator) (r : Expr) : Except Cause Atom :=
  match l, r with
  | .atom (.number a) _, .atom (.number b) _ => .number <$> a.combine op b
  | .atom (.color a) _, .atom (.color b) _ => .color <$> a.combine op b
  | .atom (.color a) _, .atom (.number b) _ => .color <$> a.scale op b.value
  | .atom (.number a) _, .atom (.color b) _ =>
    if op.isCommutative then .color <$> b.scale op a.value
    else .error (.operands op l.kind r.kind)
  | _, _ => .error (.operands op l.kind r.kind)

end StyleValue
