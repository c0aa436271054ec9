import StyleValue.Decimal.Binary

set_option autoImplicit false

namespace StyleValue

structure Color where
  red : Float
  green : Float
  blue : Float
  alpha : Float
deriving Repr

namespace Color

/-- Compared as floats are: a NaN differs from itself, and the two zeros agree. -/
instance : BEq Color where
  beq a b := a.red == b.red && a.green == b.green && a.blue == b.blue && a.alpha == b.alpha

/-- The nearest integer from 0 to 255, halves away from zero; 0 for a NaN. -/
def channelByte (x : Float) : Nat :=
  match Decimal.Binary.ofFloat? x with
  | some b => if b.negative then 0 else min 255 (b.scaled .halfAway 1)
  | none => if 0 < x then 255 else 0

def bytes (c : Color) : List Nat := [channelByte c.red, channelByte c.green, channelByte c.blue]

/-- Alpha between 0 and 1, or NaN. -/
def opacity (c : Color) : Float := Decimal.clamp 0 1 c.alpha

def ofBytes (r g b : Nat) : Color := ⟨.ofNat r, .ofNat g, .ofNat b, 1⟩

def hexValue? (c : Char) : Option Nat :=
  if '0' ≤ c ∧ c ≤ '9' then some (c.toNat - '0'.toNat)
  else if 'a' ≤ c ∧ c ≤ 'f' then some (c.toNat - 'a'.toNat + 10)
  else if 'A' ≤ c ∧ c ≤ 'F' then some (c.toNat - 'A'.toNat + 10)
  else none

def addDigit? (n : Nat) (c : Char) : Option Nat := do
  let value := 16 * n + (← hexValue? c)
  if value < 256 then some value else none

/-- Hexadecimal digits, at least one of them, behind at most one plus sign. -/
def byte? : List Char → Option Nat
  | [] | ['+'] | ['-'] => none
  | '+' :: digits => digits.foldlM addDigit? 0
  | digits => digits.foldlM addDigit? 0

def byteLength : List Char → Nat
  | [] => 0
  | c :: cs => c.utf8Size + byteLength cs

/-- Cuts behind the first `n` bytes, unless there are fewer or a character stands across the cut. -/
def splitBytes? : Nat → List Char → Option (List Char × List Char)
  | 0, cs => some ([], cs)
  | _ + 1, [] => none
  | n + 1, c :: cs =>
    if c.utf8Size ≤ n + 1 then
      (splitBytes? (n + 1 - c.utf8Size) cs).map fun parts => (c :: parts.1, parts.2)
    else none

def slice? (start stop : Nat) (cs : List Char) : Option (List Char) := do
  let (before, _) ← splitBytes? stop cs
  let (_, kept) ← splitBytes? start before
  return kept

def hexBody (s : String) : List Char :=
  match s.toList with
  | '#' :: cs => cs
  | cs => cs

/-- Three bytes, each character of which is doubled, or three pairs of bytes, behind at most one number sign. -/
def ofHex? (s : String) : Option Color :=
  let digits := hexBody s
  match byteLength digits with
  | 3 => do
    let channels ← (digits.take 3).mapM fun c => byte? [c, c]
    return ofBytes (channels.getD 0 0) (channels.getD 1 0) (channels.getD 2 0)
  | 6 => do
    let red ← byte? (← slice? 0 2 digits)
    let green ← byte? (← slice? 2 4 digits)
    let blue ← byte? (← slice? 4 6 digits)
    return ofBytes red green blue
  | _ => none

end Color

end StyleValue
