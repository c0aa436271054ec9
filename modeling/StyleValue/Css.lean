import StyleValue.Decimal.Fixed
import StyleValue.Expr.Basic
import StyleValue.Output

set_option autoImplicit false

namespace StyleValue

structure Options where
  /-- Arithmetic inside the arguments of a call stays as it is written. -/
  strictMath : Bool := false
  compress : Bool := false
deriving DecidableEq, Repr

def Options.separator (o : Options) : String := if o.compress then "," else ", "

def Number.css (n : Number) (compress : Bool) : String :=
  Decimal.text n.value compress ++ n.unitText

namespace Color

def hexByte (n : Nat) : List Char := [Nat.digitChar (n / 16), Nat.digitChar (n % 16)]

def isDoubled (n : Nat) : Bool := n / 16 == n % 16

/-- `#rgb` where `short` allows it and every byte doubles its digit, else `#rrggbb`. -/
def hex (c : Color) (short : Bool) : String :=
  String.ofList <| '#' ::
    if short && c.bytes.all isDoubled then c.bytes.map fun n => Nat.digitChar (n % 16)
    else c.bytes.flatMap hexByte

/-- Translucent colors take the form of a call, in which the alpha is never shortened. -/
def css (c : Color) (opts : Options) : String :=
  if c.opacity < 1 then
    "rgba(" ++ String.join (c.bytes.map fun n => toString n ++ opts.separator) ++
      Decimal.text c.opacity false ++ ")"
  else c.hex opts.compress

end Color

def Atom.css (opts : Options) : Atom → String
  | .number n => n.css opts.compress
  | .color c => c.css opts
  | .keyword t | .text t => t
  | .quoted q => if q.escaped then q.value else q.quote.toString ++ q.value ++ q.quote.toString

/-- Appends a value; the quotes of a string are appended apart. -/
def Atom.write (opts : Options) (out : Output) : Atom → Output
  | .number n => out.append (n.css opts.compress)
  | .color c => out.append (c.css opts)
  | .keyword t | .text t => out.append t
  | .quoted q =>
    if q.escaped then out.append q.value
    else ((out.append q.quote.toString).append q.value).append q.quote.toString

theorem Atom.write_eq (opts : Options) (out : Output) (v : Atom) :
    v.write opts out = out.append (v.css opts) := by
  cases v <;> simp only [write, css]
  split <;> simp [Output.append_append]

def Css.behind (separator : String) : List String → String
  | [] => ""
  | text :: rest => separator ++ text ++ behind separator rest

def Css.joined (separator : String) : List String → String
  | [] => ""
  | text :: rest => text ++ behind separator rest

namespace Expr

mutual

def css (opts : Options) : Expr → String
  | .atom v _ => v.css opts
  | .reference name _ => "@" ++ name
  | .operation l op r _ | .deferred l op r _ =>
    l.css opts ++ " " ++ op.symbol ++ " " ++ r.css opts
  | .call site args _ => site.name ++ "(" ++ Css.joined opts.separator (cssEach opts args) ++ ")"
  | .list items _ => Css.joined " " (cssEach opts items)

def cssEach (opts : Options) : List Expr → List String
  | [] => []
  | e :: es => e.css opts :: cssEach opts es

end

mutual

def write (opts : Options) : Expr → Output → Output
  | .atom v _, out => v.write opts out
  | .reference name _, out => (out.append "@").append name
  | .operation l op r _, out | .deferred l op r _, out =>
    r.write opts ((((l.write opts out).append " ").append op.symbol).append " ")
  | .call site args _, out =>
    (writeJoined opts opts.separator args ((out.append site.name).append "(")).append ")"
  | .list items _, out => writeJoined opts " " items out

def writeJoined (opts : Options) (separator : String) : List Expr → Output → Output
  | [], out => out
  | e :: es, out => writeEach opts separator es (e.write opts out)

def writeEach (opts : Options) (separator : String) : List Expr → Output → Output
  | [], out => out
  | e :: es, out => writeEach opts separator es (e.write opts (out.append separator))

end

mutual

theorem write_eq (opts : Options) (e : Expr) (out : Output) :
    e.write opts out = out.append (e.css opts) := by
  cases e with
  | atom v s => exact Atom.write_eq opts out v
  | reference name s => simp [write, css, Output.append_append]
  | operation l op r s =>
    simp [write, css, write_eq opts l, write_eq opts r, Output.append_append, String.append_assoc]
  | deferred l op r s =>
    simp [write, css, write_eq opts l, write_eq opts r, Output.append_append, String.append_assoc]
  | call site args s =>
    simp [write, css, writeJoined_eq opts _ args, Output.append_append]
  | list items s => simp [write, css, writeJoined_eq opts _ items]

theorem writeJoined_eq (opts : Options) (separator : String) (es : List Expr) (out : Output) :
    writeJoined opts separator es out = out.append (Css.joined separator (cssEach opts es)) := by
  cases es with
  | nil => exact out.append_empty.symm
  | cons e es =>
    simp [writeJoined, cssEach, Css.joined, write_eq opts e, writeEach_eq opts separator es,
      Output.append_append]

theorem writeEach_eq (opts : Options) (separator : String) (es : List Expr) (out : Output) :
    writeEach opts separator es out = out.append (Css.behind separator (cssEach opts es)) := by
  cases es with
  | nil => exact out.append_empty.symm
  | cons e es =>
    simp [writeEach, cssEach, Css.behind, write_eq opts e, writeEach_eq opts separator es,
      Output.append_append, String.append_assoc]

end

end Expr

end StyleValue
