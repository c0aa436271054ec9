import StyleValue.Decimal.Shortest
import StyleValue.Expr.Basic
import StyleValue.Text.CodePoints

set_option autoImplicit false

namespace StyleValue.Dump

/-- Decimal exponents that are written with a point rather than with an exponent. -/
def isPositional (exponent : Int) : Bool := -5 < exponent && exponent < 16

def pointed (digits : List Char) (whole : Int) : List Char :=
  let before := digits.take whole.toNat ++ List.replicate (whole.toNat - digits.length) '0'
  let after := List.replicate (-whole).toNat '0' ++ digits.drop whole.toNat
  (if before.isEmpty then ['0'] else before) ++ '.' :: (if after.isEmpty then ['0'] else after)

def exponential (digits : List Char) (exponent : Int) : List Char :=
  let fraction := if digits.tail.isEmpty then [] else '.' :: digits.tail
  digits.take 1 ++ fraction ++ 'e' :: (toString exponent).toList

def magnitude (d : Decimal.Scientific) : List Char :=
  let digits := Nat.toDigits 10 d.digits
  let exponent := d.exponent + digits.length - 1
  if isPositional exponent then pointed digits (exponent + 1) else exponential digits exponent

def float (x : Float) : String :=
  match Decimal.Binary.ofFloat? x with
  | some b => (if b.negative then "-" else "") ++ String.ofList (magnitude b.shortest)
  | none => if x.isNaN then "NaN" else if x < 0 then "-inf" else "inf"

/-- A character that cannot be told apart by sight is given by its number. -/
def escapeUnclear (c : Char) : List Char :=
  if Text.isExtending c || Text.isInvisible c then
    ['\\', 'u', '\x7b'] ++ Nat.toDigits 16 c.toNat ++ ['\x7d']
  else [c]

def escape (quote c : Char) : List Char :=
  if c = quote ∨ c = '\\' then ['\\', c]
  else match c with
    | '\t' => ['\\', 't']
    | '\n' => ['\\', 'n']
    | '\r' => ['\\', 'r']
    | '\x00' => ['\\', '0']
    | c => escapeUnclear c

def string (s : String) : String :=
  String.ofList ('"' :: s.toList.flatMap (escape '"') ++ ['"'])

def char (c : Char) : String := String.ofList ('\'' :: escape '\'' c ++ ['\''])

def record (name : String) (fields : List (String × String)) : String :=
  name ++ " \x7b " ++ ", ".intercalate (fields.map fun f => f.1 ++ ": " ++ f.2) ++ " \x7d"

def variant (name content : String) : String := name ++ "(" ++ content ++ ")"

def sequence (texts : List String) : String := "[" ++ ", ".intercalate texts ++ "]"

def unit : Option String → String
  | none => "None"
  | some u => variant "Some" (string u)

def operator : Operator → String
  | .add => "Add"
  | .sub => "Sub"
  | .mul => "Mul"
  | .div => "Div"

def atom : Atom → String
  | .number n =>
    variant "Number" (record "Number" [("value", float n.value), ("unit", unit n.unit)])
  | .color c =>
    variant "Color" (record "Color"
      [("rgb", sequence [float c.red, float c.green, float c.blue]), ("alpha", float c.alpha)])
  | .keyword w => variant "Keyword" (string w)
  | .quoted q =>
    variant "Quoted" (record "Quoted"
      [("value", string q.value), ("quote", char q.quote),
        ("escaped", if q.escaped then "true" else "false")])
  | .text t => variant "Text" (string t)

def operation (l : String) (op : Operator) (r : String) : String :=
  record "Operation" [("left", l), ("op", operator op), ("right", r)]

mutual

def expr : Expr → String
  | .atom v s => atom v ++ " @ " ++ s.text
  | .reference n s => variant "Variable" (string n) ++ " @ " ++ s.text
  | .operation l op r s => variant "Operation" (operation (expr l) op (expr r)) ++ " @ " ++ s.text
  | .deferred l op r s =>
    variant "Deferred" (record "DeferredOperation" [("operation", operation (expr l) op (expr r))])
      ++ " @ " ++ s.text
  | .call site args s =>
    variant "Call" (record "Call"
      [("name", string site.name), ("arguments", sequence (exprs args)), ("span", site.span.text)])
      ++ " @ " ++ s.text
  | .list items s => variant "Expression" (sequence (exprs items)) ++ " @ " ++ s.text

def exprs : List Expr → List String
  | [] => []
  | e :: es => expr e :: exprs es

end

def names (sorted : List String) : String :=
  record "FunctionRegistry" [("functions", sequence (sorted.map string))]

def sharedNames (sorted : List String) : String := variant "SharedRegistry" (names sorted)

end StyleValue.Dump
