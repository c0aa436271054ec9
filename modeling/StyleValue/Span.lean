set_option autoImplicit false

namespace StyleValue

/-- Half-open range of source positions. It may run backwards and is then empty. -/
structure Span where
  start : UInt32
  stop : UInt32
deriving DecidableEq, Repr

namespace Span

/-- Position of what was made without a source. -/
def nowhere : Span := ⟨0, 0⟩

instance : Inhabited Span := ⟨nowhere⟩

def cover (a b : Span) : Span := ⟨min a.start b.start, max a.stop b.stop⟩

def length (s : Span) : Nat := s.stop.toNat - s.start.toNat

def isEmpty (s : Span) : Bool := s.stop ≤ s.start

def text (s : Span) : String :=
  toString s.start.toNat ++ ".." ++ toString s.stop.toNat

def limit : Nat := 4294967295

/-- The end of a range that lies beyond `limit`. -/
inductive RangeFault where
  | startTooLarge (position : Nat)
  | stopTooLarge (position : Nat)
deriving DecidableEq, Repr

def RangeFault.message : RangeFault → String
  | .startTooLarge p => s!"span start {p} exceeds u32::MAX"
  | .stopTooLarge p => s!"span end {p} exceeds u32::MAX"

def ofRange? (start stop : Nat) : Except RangeFault Span :=
  if limit < start then .error (.startTooLarge start)
  else if limit < stop then .error (.stopTooLarge stop)
  else .ok ⟨start.toUInt32, stop.toUInt32⟩

end Span

end StyleValue
