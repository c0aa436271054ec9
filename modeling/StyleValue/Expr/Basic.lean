import StyleValue.Span
import StyleValue.Color

set_option autoImplicit false

namespace StyleValue

inductive Operator where
  | add
  | sub
  | mul
  | div
deriving DecidableEq, Repr

namespace Operator

def symbol : Operator → String
  | add => "+"
  | sub => "-"
  | mul => "*"
  | div => "/"

def ofSymbol? : String → Option Operator
  | "+" => some add
  | "-" => some sub
  | "*" => some mul
  | "/" => some div
  | _ => none

theorem ofSymbol?_symbol (op : Operator) : ofSymbol? op.symbol = some op := by
  cases op <;> rfl

def isCommutative : Operator → Bool
  | add | mul => true
  | sub | div => false

end Operator

/-- A number with or without a unit. The empty unit is a unit. -/
structure Number where
  value : Float
  unit : Option String := none
deriving Repr

instance : BEq Number where
  beq a b := a.value == b.value && a.unit == b.unit

def Number.unitText (n : Number) : String := n.unit.getD ""

structure Quoted where
  value : String
  quote : Char := '"'
  escaped : Bool := false
deriving DecidableEq, Repr

inductive Atom where
  | number (n : Number)
  | color (c : Color)
  | keyword (word : String)
  | quoted (q : Quoted)
  | text (text : String)
deriving Repr

instance : BEq Atom where
  beq
    | .number a, .number b => a == b
    | .color a, .color b => a == b
    | .keyword a, .keyword b => a == b
    | .quoted a, .quoted b => a == b
    | .text a, .text b => a == b
    | _, _ => false

/-- A function's name as it is written at a call, and where. -/
structure Site where
  name : String
  span : Span
deriving DecidableEq, Repr

/-- A deferred operation is arithmetic that stays as it is written. -/
inductive Expr where
  | atom (value : Atom) (span : Span)
  | reference (name : String) (span : Span)
  | operation (left : Expr) (op : Operator) (right : Expr) (span : Span)
  | deferred (left : Expr) (op : Operator) (right : Expr) (span : Span)
  | call (site : Site) (args : List Expr) (span : Span)
  | list (items : List Expr) (span : Span)
deriving Repr

namespace Expr

def empty : Expr := .atom (.text "") .nowhere

instance : Inhabited Expr := ⟨empty⟩

def span : Expr → Span
  | .atom _ s | .reference _ s | .operation _ _ _ s | .deferred _ _ _ s | .call _ _ s | .list _ s => s

/-- The same node at another span. Parts and the site of a call stay where they are. -/
def relocate (s : Span) : Expr → Expr
  | .atom v _ => .atom v s
  | .reference n _ => .reference n s
  | .operation l op r _ => .operation l op r s
  | .deferred l op r _ => .deferred l op r s
  | .call site args _ => .call site args s
  | .list items _ => .list items s

@[simp] theorem span_relocate (s : Span) (e : Expr) : (e.relocate s).span = s := by
  cases e <;> rfl

def operate (l : Expr) (op : Operator) (r : Expr) : Expr := .operation l op r (l.span.cover r.span)

def callAt (site : Site) (args : List Expr) : Expr := .call site args site.span

/-- Where the content of an operation or call lies by itself: around its operands, or at its site. -/
def contentSpan? : Expr → Option Span
  | .operation l _ r _ | .deferred l _ r _ => some (l.span.cover r.span)
  | .call site _ _ => some site.span
  | _ => none

def kind : Expr → String
  | .atom (.number _) _ => "number"
  | .atom (.color _) _ => "color"
  | .atom (.keyword _) _ => "keyword"
  | .atom (.quoted _) _ => "string"
  | .atom (.text _) _ => "text"
  | .reference _ _ => "variable"
  | .operation _ _ _ _ => "operation"
  | .deferred _ _ _ _ => "deferred operation"
  | .call _ _ _ => "call"
  | .list _ _ => "expression"

def isOperation : Expr → Bool
  | .operation _ _ _ _ => true
  | _ => false

def isDeferred : Expr → Bool
  | .deferred _ _ _ _ => true
  | _ => false

def number? : Expr → Option Number
  | .atom (.number n) _ => some n
  | _ => none

def color? : Expr → Option Color
  | .atom (.color c) _ => some c
  | _ => none

def text? : Expr → Option String
  | .atom (.keyword w) _ => some w
  | .atom (.text t) _ => some t
  | .atom (.quoted q) _ => some q.value
  | _ => none

mutual

def beq : Expr → Expr → Bool
  | .atom v s, .atom v' s' => v == v' && s == s'
  | .reference n s, .reference n' s' => n == n' && s == s'
  | .operation l op r s, .operation l' op' r' s' => l.beq l' && op == op' && r.beq r' && s == s'
  | .deferred l op r s, .deferred l' op' r' s' => l.beq l' && op == op' && r.beq r' && s == s'
  | .call site args s, .call site' args' s' => site == site' && beqAll args args' && s == s'
  | .list items s, .list items' s' => beqAll items items' && s == s'
  | _, _ => false

def beqAll : List Expr → List Expr → Bool
  | [], [] => true
  | e :: es, e' :: es' => e.beq e' && beqAll es es'
  | _, _ => false

end

instance : BEq Expr := ⟨beq⟩

end Expr

end StyleValue
