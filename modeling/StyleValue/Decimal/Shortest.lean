import StyleValue.Decimal.Binary

/-!
The shortest decimal that identifies a binary64 value. The reals that round to a value form an interval; the
coarsest decimal grid with a point in it gives the fewest digits, and only the two neighbours of the value on
a grid need to be tried.
-/

set_option autoImplicit false

namespace StyleValue.Decimal

structure Scientific where
  digits : Nat
  exponent : Int
deriving DecidableEq, Repr

namespace Scientific

def numerator (d : Scientific) : Nat := d.digits * Nat.pow 10 d.exponent.toNat

def denominator (d : Scientific) : Nat := Nat.pow 10 (-d.exponent).toNat

def compareBinary (d : Scientific) (b : Binary) : Ordering :=
  compare (d.numerator * b.denominator) (b.numerator * d.denominator)

end Scientific

namespace Binary

/-- The value below is half as far away as the value above: the mantissa is the least of 53 bits, and there
is a smaller exponent. -/
def isNarrowBelow (b : Binary) : Bool := b.mantissa == Nat.pow 2 52 && b.exponent != -1074

/-- Another magnitude, counted in quarters of the last binary place. -/
def quarters (b : Binary) (count : Nat) : Binary := ⟨b.negative, count, b.exponent - 2⟩

/-- The decimal rounds to the magnitude. The ends of the interval belong to it if the mantissa is even. -/
def readsBack (b : Binary) (d : Scientific) : Bool :=
  let low := d.compareBinary (b.quarters (4 * b.mantissa - if b.isNarrowBelow then 1 else 2))
  let high := d.compareBinary (b.quarters (4 * b.mantissa + 2))
  if b.mantissa % 2 = 0 then low != .lt && high != .gt else low == .gt && high == .lt

def below (b : Binary) (exponent : Int) : Scientific :=
  let unit : Scientific := ⟨1, exponent⟩
  ⟨b.numerator * unit.denominator / (b.denominator * unit.numerator), exponent⟩

/-- The point of a grid that identifies the magnitude, if there is one; of two the nearer, and the upper one
at equal distance. -/
def onGrid? (b : Binary) (exponent : Int) : Option Scientific :=
  let lower := b.below exponent
  let upper : Scientific := ⟨lower.digits + 1, exponent⟩
  match b.readsBack lower, b.readsBack upper with
  | true, true =>
    let middle : Scientific := ⟨2 * lower.digits + 1, exponent⟩
    some (if middle.compareBinary { b with mantissa := 2 * b.mantissa } == .gt then lower else upper)
  | true, false => some lower
  | false, true => some upper
  | false, false => none

def coarsest (b : Binary) : Nat → Int → Scientific
  | 0, exponent => b.below exponent
  | count + 1, exponent => (b.onGrid? exponent).getD (coarsest b count (exponent - 1))

/-- An exponent of ten whose power lies above the magnitude: 1233 / 4096 is the logarithm of two, closely
enough for all binary exponents. -/
def scale (b : Binary) : Int := (b.mantissa.log2 + 1 + b.exponent) * 1233 / 4096 + 1

/-- No decimal with fewer digits rounds to the magnitude. Seventeen digits always do. -/
def shortest (b : Binary) : Scientific :=
  if b.mantissa = 0 then ⟨0, 0⟩ else b.coarsest 20 b.scale

end Binary

end StyleValue.Decimal
