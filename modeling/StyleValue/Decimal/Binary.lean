set_option autoImplicit false

namespace StyleValue.Decimal

/-- The number ± mantissa · 2 ^ exponent. A zero keeps its sign. -/
structure Binary where
  negative : Bool
  mantissa : Nat
  exponent : Int
deriving DecidableEq, Repr

inductive Rounding where
  | towardZero
  | awayFromZero
  | halfAway
  | halfEven
deriving DecidableEq, Repr

def Rounding.quotient (mode : Rounding) (num den : Nat) : Nat :=
  let below := num / den
  let rest := num % den
  let up := match mode with
    | towardZero => false
    | awayFromZero => 0 < rest
    | halfAway => den ≤ 2 * rest
    | halfEven => den < 2 * rest || (2 * rest == den && below % 2 == 1)
  if up then below + 1 else below

namespace Binary

def ofFloat? (x : Float) : Option Binary :=
  match x.toModel.unpack with
  | .zero sign => some ⟨sign == .negative, 0, 0⟩
  | .finite sign mantissa exponent _ => some ⟨sign == .negative, mantissa, exponent⟩
  | .infinity _ | .notANumber => none

/-- The magnitude is `numerator` over `denominator`; one of the two powers is one. -/
def numerator (b : Binary) : Nat := b.mantissa * Nat.pow 2 b.exponent.toNat

def denominator (b : Binary) : Nat := Nat.pow 2 (-b.exponent).toNat

def scaled (b : Binary) (mode : Rounding) (factor : Nat) : Nat :=
  mode.quotient (b.numerator * factor) b.denominator

end Binary

/-- The integer next to a value on the side that `mode` names for its sign. A NaN and an infinity stay as
they are. -/
def integer (mode : Bool → Rounding) (x : Float) : Float :=
  match Binary.ofFloat? x with
  | none => x
  | some b =>
    let magnitude := Float.ofNat (b.scaled (mode b.negative) 1)
    if b.negative then -magnitude else magnitude

def ceil : Float → Float :=
  integer fun negative => if negative then .towardZero else .awayFromZero

def floor : Float → Float :=
  integer fun negative => if negative then .awayFromZero else .towardZero

def nearest : Float → Float := integer fun _ => .halfAway

def trunc : Float → Float := integer fun _ => .towardZero

/-- The value, or the end of the range that it lies beyond. A NaN lies beyond neither. -/
def clamp (lo hi x : Float) : Float :=
  if x < lo then lo else if hi < x then hi else x

end StyleValue.Decimal
