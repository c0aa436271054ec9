import StyleValue.Proofs.DepthBounds
import StyleValue.Proofs.OccurringNodes
import StyleValue.Proofs.ReferenceCycles

set_option autoImplicit false

namespace StyleValue

/-- The least set that has the variables of the expression and, for each variable in it that is bound, those of
its value. Variables under deferred operations count, although evaluation does not come to them. -/
inductive Scopes.Needs (scopes : Scopes) (e : Expr) : String → Prop
  | here {name : String} (hname : name ∈ e.references) : Needs scopes e name
  | value {name other : String} {value : Expr} (hname : Needs scopes e name)
      (hvalue : scopes.lookup name = some value) (hother : other ∈ value.references) : Needs scopes e other

theorem Expr.Mentions.mem_references {e : Expr} {name : String} (h : e.Mentions name) :
    name ∈ e.references := by
  obtain ⟨s, hs⟩ := h
  exact Expr.mem_references.mpr ⟨s, mem_nodes_of_exposed hs⟩

namespace Scopes

variable {scopes : Scopes} {e x : Expr} {name : String}

theorem Reaches.needs (h : scopes.Reaches e name) : scopes.Needs e name := by
  obtain ⟨first, hfirst, hpath⟩ := h
  induction hpath with
  | refl => exact .here hfirst.mem_references
  | tail _ hmention ih =>
    obtain ⟨value, hvalue, hother⟩ := hmention
    exact .value ih hvalue hother.mem_references

theorem reaches_reference (scopes : Scopes) (name : String) (s : Span) :
    scopes.Reaches (.reference name s) name :=
  ⟨name, Expr.mentions_reference name s, .refl⟩

theorem Reaches.of_value {value : Expr} {other : String} (h : scopes.Reaches value other)
    (hvalue : scopes.lookup name = some value) (s : Span) : scopes.Reaches (.reference name s) other := by
  obtain ⟨first, hfirst, hpath⟩ := h
  exact ⟨name, Expr.mentions_reference name s, .head ⟨value, hvalue, hfirst⟩ hpath⟩

theorem Reaches.of_operand {strict : Bool} (h : scopes.Reaches x name) (hx : x ∈ e.operands strict) :
    scopes.Reaches e name := by
  obtain ⟨first, hfirst, hpath⟩ := h
  exact ⟨first, hfirst.of_operand_of_mode hx, hpath⟩

end Scopes

namespace Library.Standard

variable {lib : Library} (h : lib.Standard) {ctx ctx' : Context} {e : Expr}
include h

theorem evaluate_follows_of_lookup (hoptions : ctx'.options = ctx.options)
    (hpending : ctx'.pending = ctx.pending)
    (hlookup : ∀ name, ctx.scopes.Reaches e name → ctx'.scopes.lookup name = ctx.scopes.lookup name)
    (depth : Nat) :
    ((e.evaluate lib depth).run ctx).Follows Outcome.noFault ((e.evaluate lib depth).run ctx') := by
  induction depth generalizing e ctx ctx' with
  | zero => trivial
  | succ depth ih =>
    have heval := h.restores_evaluate depth
    cases href : e.isReference with
    | true =>
      obtain ⟨name, s, rfl⟩ := Expr.eq_reference href
      refine Eval.resolve_follows (hlookup name (ctx.scopes.reaches_reference name s)) (by rw [hpending]) ?_
      intro value hvalue _
      have hpend : (ctx'.pend name).pending = (ctx.pend name).pending := congrArg (name :: ·) hpending
      exact @ih (ctx.pend name) (ctx'.pend name) value hoptions hpend fun other hother =>
        hlookup other (hother.of_value hvalue s)
    | false =>
      refine h.step_follows heval heval href (by rw [hoptions]) (by rw [hoptions]) fun x hx => ?_
      exact ih hoptions hpending fun name hname => hlookup name (hname.of_operand hx)

theorem exists_yields_of_lookup (hoptions : ctx'.options = ctx.options)
    (hpending : ctx'.pending = ctx.pending)
    (hlookup : ∀ name, ctx.scopes.Reaches e name → ctx'.scopes.lookup name = ctx.scopes.lookup name) :
    ∃ r, e.Yields lib ctx r ∧ e.Yields lib ctx' r := by
  obtain ⟨r, hr⟩ := h.exists_yields e ctx
  obtain ⟨depth, hresult⟩ := hr.exists_result
  have hfollows := h.evaluate_follows_of_lookup hoptions hpending hlookup depth
  exact ⟨r, hr, h.yields_of_result (hfollows.result_of_noFault hresult)⟩

end Library.Standard

theorem results_depend_on_needed_bindings {lib : Library} (h : lib.Standard) {ctx ctx' : Context}
    (hoptions : ctx'.options = ctx.options) (hpending : ctx'.pending = ctx.pending) {e : Expr}
    (hlookup : ∀ name, ctx.scopes.Needs e name → ctx'.scopes.lookup name = ctx.scopes.lookup name) :
    ∃ r, e.Yields lib ctx r ∧ e.Yields lib ctx' r :=
  h.exists_yields_of_lookup hoptions hpending fun name hname => hlookup name hname.needs

/-- One context binds all in one scope, and the other one has an inner scope in which one name is bound anew and
a name that the first one binds is missing. The expression comes to a variable that neither of them binds. -/
theorem results_depend_on_needed_bindings_in_other_scopes :
    let word (w : String) : Expr := .atom (.keyword w) ⟨0, 1⟩
    let a : Expr := .list [.reference "b" ⟨1, 3⟩, .reference "c" ⟨4, 6⟩] ⟨1, 6⟩
    let scopes := ((Scopes.define {} "a" a).define "b" (word "x")).define "d" (word "y")
    let scopes' := (((Scopes.define {} "a" a).define "b" (word "z")).enter).define "b" (word "x")
    let e : Expr := .reference "a" ⟨7, 9⟩
    scopes.lookup "d" ≠ none ∧ scopes'.lookup "d" = none ∧
      ∃ r, e.Yields .builtin { scopes } r ∧ e.Yields .builtin { scopes := scopes' } r := by
  intro word a scopes scopes' e
  have hneeds : ∀ name, scopes.Needs e name → name = "a" ∨ name = "b" ∨ name = "c" := by
    intro name hname
    induction hname with
    | here hname => exact .inl (List.mem_singleton.mp hname)
    | @value name other value _ hvalue hother ih =>
      rcases ih with rfl | rfl | rfl
      · obtain rfl : a = value := Option.some.inj hvalue
        exact .inr (List.mem_pair.mp hother)
      · obtain rfl : word "x" = value := Option.some.inj hvalue
        cases hother
      · cases hvalue
  have hlookup : ∀ name, scopes.Needs e name → scopes'.lookup name = scopes.lookup name := by
    intro name hname
    rcases hneeds name hname with rfl | rfl | rfl <;> rfl
  have hoptions : ({ scopes := scopes' } : Context).options = ({ scopes } : Context).options := rfl
  exact ⟨by decide, rfl, results_depend_on_needed_bindings (.inr rfl) hoptions rfl hlookup⟩

end StyleValue
