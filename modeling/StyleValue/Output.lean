set_option autoImplicit false

namespace StyleValue

/-- The buffers above the root, innermost first. -/
structure Output where
  root : String := ""
  nested : List String := []
deriving DecidableEq, Repr

namespace Output

def push (o : Output) : Output := { o with nested := "" :: o.nested }

/-- Closes the innermost buffer and hands out its text; at the root only the text goes. -/
def pop (o : Output) : String × Output :=
  match o.nested with
  | [] => (o.root, { o with root := "" })
  | text :: outer => (text, { o with nested := outer })

/-- Number of buffers, the root included. -/
def depth (o : Output) : Nat := o.nested.length + 1

def current (o : Output) : String :=
  match o.nested with
  | [] => o.root
  | text :: _ => text

def mapCurrent (o : Output) (f : String → String) : Output :=
  match o.nested with
  | [] => { o with root := f o.root }
  | text :: outer => { o with nested := f text :: outer }

def append (o : Output) (text : String) : Output := o.mapCurrent (· ++ text)

def appendEach (separator : String) : List String → Output → Output
  | [], o => o
  | text :: rest, o => appendEach separator rest ((o.append separator).append text)

def appendJoined (o : Output) (separator : String) : List String → Output
  | [] => o
  | text :: rest => appendEach separator rest (o.append text)

theorem append_append (o : Output) (s t : String) : (o.append s).append t = o.append (s ++ t) := by
  obtain ⟨root, nested⟩ := o
  cases nested <;> simp [append, mapCurrent, String.append_assoc]

theorem append_empty (o : Output) : o.append "" = o := by
  obtain ⟨root, nested⟩ := o
  cases nested <;> simp [append, mapCurrent]

def take (o : Output) : String × Output := (o.current, o.mapCurrent fun _ => "")

end Output

end StyleValue
