import StyleValue.Library.Basic

set_option autoImplicit false

namespace StyleValue.Library

def percentage (inv : Invocation) : Except Fault Expr := do
  inv.expect (.exactly 1)
  let n ← inv.number 0
  return inv.answer (.number ⟨← inv.finite (n.value * 100), some "%"⟩)

def roundPlaces : Nat := 15

/-- Ten to the power of a count of places, cut to whole places between 0 and `roundPlaces`. -/
def placeValue (places : Float) : Float :=
  let places := Decimal.clamp 0 (.ofNat roundPlaces) (Decimal.trunc places)
  match Decimal.Binary.ofFloat? places with
  | some b => .ofNat (Nat.pow 10 (b.scaled .towardZero 1))
  | none => places

def round (inv : Invocation) : Except Fault Expr := do
  inv.expect (.range 1 (some 2))
  let n ← inv.number 0
  let places ← if inv.args.length = 2 then Number.value <$> inv.number 1 else pure 0
  let factor := placeValue places
  return inv.answer (.number ⟨← inv.finite (Decimal.nearest (n.value * factor) / factor), n.unit⟩)

def mapNumber (f : Float → Float) (inv : Invocation) : Except Fault Expr := do
  inv.expect (.exactly 1)
  let n ← inv.number 0
  return inv.answer (.number ⟨← inv.finite (f n.value), n.unit⟩)

def agree (inv : Invocation) : Option String → Option String → Except Fault (Option String)
  | some seen, some other =>
    if seen = other then .ok (some seen)
    else .error ((Cause.unitClash inv.name seen other).atSpan inv.span)
  | none, other => .ok other
  | seen, none => .ok seen

/-- Goes through the arguments from `index` on. `best` is the choice so far and `unit` the first unit seen. -/
def chooseFrom (inv : Invocation) (prefer : Float → Float → Bool) :
    (count index : Nat) → (best : Number) → (unit : Option String) → Except Fault Number
  | 0, _, best, _ => .ok best
  | count + 1, index, best, unit => do
    let candidate ← inv.number index
    let unit ← agree inv unit candidate.unit
    chooseFrom inv prefer count (index + 1)
      (if prefer candidate.value best.value then candidate else best) unit

/-- The first argument that none after it is preferred to. All units must agree. -/
def choose (prefer : Float → Float → Bool) (inv : Invocation) : Except Fault Expr := do
  inv.expect (.range 1 none)
  let first ← inv.number 0
  let best ← chooseFrom inv prefer (inv.args.length - 1) 1 first first.unit
  return inv.answer (.number best)

def least : Invocation → Except Fault Expr := choose fun candidate best => candidate < best

def greatest : Invocation → Except Fault Expr := choose fun candidate best => best < candidate

/-- Gives a number the unit that a second argument names. No argument and an empty one take it away. -/
def withUnit (inv : Invocation) : Except Fault Expr := do
  inv.expect (.range 1 (some 2))
  let n ← inv.number 0
  let unit ← if inv.args.length = 2 then some <$> inv.text 1 else pure none
  return inv.answer (.number ⟨n.value, unit.filter (· != "")⟩)

def channel (inv : Invocation) (index : Nat) : Except Fault Float := do
  let n ← inv.number index
  return if n.unitText = "%" then n.value * 255 / 100 else n.value

def alpha (inv : Invocation) (index : Nat) : Except Fault Float := do
  let n ← inv.number index
  return if n.unitText = "%" then n.value / 100 else n.value

def rgb (inv : Invocation) : Except Fault Expr := do
  inv.expect (.exactly 3)
  let red ← channel inv 0
  let green ← channel inv 1
  let blue ← channel inv 2
  return inv.answer (.color ⟨red, green, blue, 1⟩)

/-- A color and an alpha, or three channels and an alpha. -/
def rgba (inv : Invocation) : Except Fault Expr := do
  inv.expect (.oneOf [2, 4])
  if inv.args.length = 2 then
    let c ← inv.color 0
    return inv.answer (.color { c with alpha := ← alpha inv 1 })
  else
    let red ← channel inv 0
    let green ← channel inv 1
    let blue ← channel inv 2
    return inv.answer (.color ⟨red, green, blue, ← alpha inv 3⟩)

def unquote (inv : Invocation) : Except Fault Expr := do
  inv.expect (.exactly 1)
  let text ← inv.text 0
  return inv.answer (.quoted { value := text, escaped := true })

end StyleValue.Library
