import StyleValue.Proofs.InfixGrouping
import StyleValue.Proofs.OccurringNodes

set_option autoImplicit false

namespace StyleValue

namespace Expr

/-- The node at the end of a path, each step of which is the index of a part. -/
def at? : Expr → List Nat → Option Expr
  | e, [] => some e
  | e, i :: path => e.parts[i]?.bind fun x => x.at? path

mutual

/-- Every deferred operation as a plain one, those that lie under others included. -/
def undefer : Expr → Expr
  | .atom v s => .atom v s
  | .reference name s => .reference name s
  | .operation l op r s | .deferred l op r s => .operation l.undefer op r.undefer s
  | .call site args s => .call site (undeferEach args) s
  | .list items s => .list (undeferEach items) s

def undeferEach : List Expr → List Expr
  | [] => []
  | e :: es => e.undefer :: undeferEach es

end

theorem undeferEach_eq_map (es : List Expr) : undeferEach es = es.map undefer := by
  induction es with
  | nil => rfl
  | cons e es ih => rw [undeferEach, ih, List.map_cons]

theorem undefer_suppress (e : Expr) : e.suppress.undefer = e.undefer := by
  have heach {es : List Expr} (ih : ∀ a ∈ es, a.suppress.undefer = a.undefer) :
      undeferEach (es.map suppress) = undeferEach es := by
    rw [undeferEach_eq_map, undeferEach_eq_map, List.map_map]
    exact List.map_congr_left ih
  induction e using byParts with
  | atom v s => rfl
  | reference name s => rfl
  | operation l op r s => rw [suppress_operation, undefer, undefer]
  | deferred l op r s => rfl
  | call site args s ih => rw [suppress_call, undefer, undefer, heach ih]
  | list items s ih => rw [suppress_list, undefer, undefer, heach ih]

theorem at?_suppress {e x : Expr} {path : List Nat} (h : e.suppress.at? path = some x) :
    e.at? path = some x ∨ ∃ y, e.at? path = some y ∧ y.suppress = x := by
  induction path generalizing e with
  | nil => exact .inr ⟨e, rfl, Option.some.inj h⟩
  | cons i path ih =>
    have hparts {es : List Expr} (hes : (es.map suppress)[i]?.bind (fun z => z.at? path) = some x) :
        es[i]?.bind (fun z => z.at? path) = some x ∨
          ∃ y, es[i]?.bind (fun z => z.at? path) = some y ∧ y.suppress = x := by
      rw [List.getElem?_map] at hes
      cases ha : es[i]? with
      | none =>
        rw [ha] at hes
        cases hes
      | some a =>
        rw [ha] at hes
        exact ih hes
    cases e with
    | atom v s => cases h
    | reference name s => cases h
    | operation l op r s => exact .inl h
    | deferred l op r s => exact .inl h
    | call site args s =>
      rw [suppress_call] at h
      exact hparts h
    | list items s =>
      rw [suppress_list] at h
      exact hparts h

theorem eq_of_suppress_eq_deferred {e l r : Expr} {op : Operator} {s : Span}
    (h : e.suppress = .deferred l op r s) : e = .deferred l op r s ∨ e = .operation l op r s := by
  cases e with
  | atom v s => cases h
  | reference name s => cases h
  | operation l' op' r' s' =>
    cases h
    exact .inr rfl
  | deferred l' op' r' s' => exact .inl h
  | call site args s =>
    rw [suppress_call] at h
    cases h
  | list items s =>
    rw [suppress_list] at h
    cases h

end Expr

theorem suppression_defers_in_place (e : Expr) :
    e.suppress.Settled ∧ e.suppress.undefer = e.undefer ∧
      (∀ path l op r s, e.suppress.at? path = some (.deferred l op r s) →
        e.at? path = some (.deferred l op r s) ∨ e.at? path = some (.operation l op r s)) ∧
      e.suppress.suppress = e.suppress ∧
      ∀ ctx, ∃ text, (Eval.render e.suppress).run ctx = .value text ctx ∧
        (Eval.render e).run ctx = .value text ctx := by
  have hsettled := e.settled_suppress
  refine ⟨hsettled, e.undefer_suppress, ?_, Expr.suppress_of_settled hsettled, fun ctx => ?_⟩
  · intro path l op r s hdeferred
    rcases Expr.at?_suppress hdeferred with hsame | ⟨y, hy, hsuppress⟩
    · exact .inl hsame
    · rcases Expr.eq_of_suppress_eq_deferred hsuppress with rfl | rfl
      · exact .inl hy
      · exact .inr hy
  · refine ⟨e.css ctx.options, ?_, Eval.run_render e ctx⟩
    rw [Eval.run_render, Expr.css_suppress]

/-- One deferred operation is new, the other one is old; what lies under the new one is as it was. -/
theorem suppression_defers_in_place_of_nested :
    let word (w : String) : Expr := .atom (.keyword w) ⟨0, 1⟩
    let sum : Expr := .operation (word "x") .add (.operation (word "y") .sub (word "z") ⟨2, 5⟩) ⟨2, 6⟩
    let ratio : Expr := .deferred (word "x") .div (word "y") ⟨7, 9⟩
    let e : Expr := .list [sum, ratio] ⟨2, 9⟩
    e.suppress.at? [0] = some (.deferred (word "x") .add (.operation (word "y") .sub (word "z") ⟨2, 5⟩) ⟨2, 6⟩) ∧
      e.at? [0] = some sum ∧ e.suppress.at? [1] = some ratio ∧ e.at? [1] = some ratio := by
  intro word sum ratio e
  have hnew : e.suppress.at? [0] =
      some (.deferred (word "x") .add (.operation (word "y") .sub (word "z") ⟨2, 5⟩) ⟨2, 6⟩) := rfl
  have hold : e.suppress.at? [1] = some ratio := rfl
  obtain ⟨-, -, hplace, -, -⟩ := suppression_defers_in_place e
  refine ⟨hnew, (hplace [0] _ _ _ _ hnew).resolve_left ?_, hold, (hplace [1] _ _ _ _ hold).resolve_right ?_⟩
  · simp [e, sum, Expr.at?, Expr.parts]
  · simp [e, ratio, Expr.at?, Expr.parts]

end StyleValue
