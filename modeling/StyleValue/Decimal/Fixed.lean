import StyleValue.Decimal.Binary

set_option autoImplicit false

namespace StyleValue.Decimal

def Fixed.places : Nat := 8

def Fixed.one : Nat := Nat.pow 10 places

/-- The number ± units / `Fixed.one`. -/
structure Fixed where
  negative : Bool
  units : Nat
deriving DecidableEq, Repr

namespace Fixed

/-- The closest such number, halves to the even one. -/
def ofBinary (b : Binary) : Fixed := ⟨b.negative, b.scaled .halfEven one⟩

def whole (d : Fixed) : Nat := d.units / one

def fraction (d : Fixed) : Nat := d.units % one

def digits : Nat → Nat → List Char
  | 0, _ => []
  | n + 1, rest => Nat.digitChar (rest / Nat.pow 10 n) :: digits n (rest % Nat.pow 10 n)

/-- All places are written, and a zero has its sign. -/
def text (d : Fixed) : List Char :=
  (if d.negative then ['-'] else []) ++ Nat.toDigits 10 d.whole ++ '.' :: digits places d.fraction

end Fixed

def padded (x : Float) : List Char :=
  match Binary.ofFloat? x with
  | some b => (Fixed.ofBinary b).text
  | none => (if x.isNaN then "NaN" else if x < 0 then "-inf" else "inf").toList

def trimEnd (c : Char) : List Char → List Char
  | [] => []
  | d :: cs => if trimEnd c cs = [] ∧ d = c then [] else d :: trimEnd c cs

/-- Takes off the zeros at the end, the point if nothing is left behind it, and the sign of a zero. -/
def trimmed (cs : List Char) : List Char :=
  let cs := if '.' ∈ cs then trimEnd '.' (trimEnd '0' cs) else cs
  if cs = ['-', '0'] then cs.tail else cs

def shortened : List Char → List Char
  | '0' :: '.' :: rest => '.' :: rest
  | '-' :: '0' :: '.' :: rest => '-' :: '.' :: rest
  | cs => cs

/-- With `compress` a whole part of zero before a fraction is left out. -/
def text (x : Float) (compress : Bool) : String :=
  let cs := trimmed (padded x)
  String.ofList (if compress then shortened cs else cs)

end StyleValue.Decimal
