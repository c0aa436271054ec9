import StyleValue.Proofs.DepthBounds
import StyleValue.Proofs.OccurringNodes
import StyleValue.Proofs.StepFaults

set_option autoImplicit false

namespace StyleValue

/-- Where the value of an expression is put. -/
def Expr.valueSpan : Expr → Span
  | .call site _ _ => site.span
  | .atom _ s | .reference _ s | .operation _ _ _ s | .deferred _ _ _ s | .list _ s => s

/-- The span occurs in the expression or in the value of some variable. -/
def Scopes.KnowsSpan (scopes : Scopes) (e : Expr) (s : Span) : Prop :=
  s ∈ e.spans ∨ ∃ name value, scopes.lookup name = some value ∧ s ∈ value.spans

namespace Scopes.KnowsSpan

variable {scopes : Scopes} {e x : Expr} {s : Span}

theorem span (scopes : Scopes) (e : Expr) : scopes.KnowsSpan e e.span := .inl e.span_mem_spans

theorem site (scopes : Scopes) (site : Site) (args : List Expr) (s : Span) :
    scopes.KnowsSpan (.call site args s) site.span :=
  .inl (Expr.site_mem_spans site args s)

theorem of_operand {strict : Bool} (h : scopes.KnowsSpan x s) (hx : x ∈ e.operands strict) :
    scopes.KnowsSpan e s :=
  h.imp (Expr.mem_spans_of_operand hx) id

theorem of_value {name : String} {value : Expr} (h : scopes.KnowsSpan value s)
    (hvalue : scopes.lookup name = some value) (e : Expr) : scopes.KnowsSpan e s := by
  rcases h with h | h
  · exact .inr ⟨name, value, hvalue, h⟩
  · exact .inr h

end Scopes.KnowsSpan

namespace Expr

variable {lib : Library} {eval : Expr → Eval Expr} {v : Expr} {ctx after : Context}

theorem span_of_resolve {name : String} {s : Span}
    (hrun : (Eval.resolve eval name s).run ctx = .value v after) : v.span = s := by
  by_cases hp : name ∈ ctx.pending
  · rw [Eval.run_resolve_pending hp] at hrun
    cases hrun
  · cases hvalue : ctx.scopes.lookup name with
    | none =>
      rw [Eval.run_resolve_unbound hp hvalue] at hrun
      cases hrun
    | some value =>
      rw [Eval.run_resolve_bound hp hvalue] at hrun
      obtain ⟨w, middle, -, hrelocate⟩ := Eval.bind_eq_value_iff.mp hrun
      cases hrelocate
      exact span_relocate s w

theorem span_of_dispatch {inv : Invocation} (hrun : (Eval.dispatch lib eval inv).run ctx = .value v after) :
    v.span = inv.span := by
  cases hf : lib.find? inv.name with
  | none =>
    rw [Eval.run_dispatch_unknown inv hf] at hrun
    cases hrun
    rfl
  | some f =>
    rw [Eval.dispatch_known inv hf] at hrun
    obtain ⟨w, middle, -, hrelocate⟩ := Eval.bind_eq_value_iff.mp hrun
    cases hrelocate
    exact span_relocate inv.span w

theorem span_of_run {e : Expr} {depth : Nat} (hrun : (e.evaluate lib depth).run ctx = .value v after) :
    v.span = e.valueSpan := by
  cases depth with
  | zero => cases hrun
  | succ depth =>
    change (e.step lib (evaluate lib depth)).run ctx = .value v after at hrun
    cases e with
    | atom a s =>
      cases hrun
      rfl
    | deferred l op r s =>
      cases hrun
      rfl
    | reference name s => exact span_of_resolve hrun
    | operation l op r s =>
      obtain ⟨a, _, -, hrun⟩ := Eval.bind_eq_value_iff.mp hrun
      obtain ⟨b, _, -, hrun⟩ := Eval.bind_eq_value_iff.mp hrun
      cases hv : a.combine op b with
      | ok w =>
        rw [hv] at hrun
        cases hrun
        rfl
      | error cause =>
        rw [hv] at hrun
        cases hrun
    | call site args s =>
      rw [step_of_operands lib (evaluate lib depth) rfl] at hrun
      obtain ⟨values, _, -, hrun⟩ := Eval.bind_eq_value_iff.mp hrun
      exact span_of_dispatch hrun
    | list items s =>
      obtain ⟨values, _, -, hrun⟩ := Eval.bind_eq_value_iff.mp hrun
      cases hrun
      rfl

end Expr

namespace Library.Standard

variable {lib : Library} (h : lib.Standard) {e v : Expr} {ctx after : Context} {depth : Nat} {s : Span}
include h

theorem knowsSpan_of_run (hrun : (e.evaluate lib depth).run ctx = .value v after) (hs : s ∈ v.spans) :
    ctx.scopes.KnowsSpan e s := by
  induction depth generalizing e v ctx after with
  | zero => cases hrun
  | succ depth ih =>
    cases h.becomes_of_step (h.restores_evaluate depth) hrun with
    | atom v t => exact .inl hs
    | deferred l op r t => exact .inl hs
    | @reference name t value w _ hvalue hw =>
      rcases Expr.mem_spans_of_relocate hs with rfl | hs
      · exact .span ctx.scopes (.reference name s)
      · exact (@ih _ _ (ctx.pend name) _ hw hs).of_value hvalue _
    | @operation l r a b op t v _ _ _ =>
      obtain rfl := List.mem_singleton.mp hs
      exact .span ctx.scopes (.operation l op r s)
    | @answer site args values t b v _ _ _ =>
      obtain rfl := List.mem_singleton.mp hs
      exact .site ctx.scopes site args t
    | @text site args values t _ _ =>
      obtain rfl := List.mem_singleton.mp hs
      exact .site ctx.scopes site args t
    | @list items values t hvalues =>
      rcases Expr.mem_spans_list.mp hs with rfl | ⟨w, hw, hs⟩
      · exact .span ctx.scopes (.list items s)
      · obtain ⟨x, hx, hrun⟩ := hvalues.exists_of_mem hw
        have hoperand : x ∈ (Expr.list items t).operands false := hx
        exact (ih hrun hs).of_operand hoperand

theorem knowsSpan_of_fault {f : Fault} (hrun : (e.evaluate lib depth).run ctx = .fault f after) :
    ∃ s, f.span = some s ∧ ctx.scopes.KnowsSpan e s := by
  induction depth generalizing e ctx after with
  | zero => cases hrun
  | succ depth ih =>
    cases h.breaks_of_step (h.restores_evaluate depth) hrun with
    | @cyclic name t _ => exact ⟨t, rfl, .span ctx.scopes (.reference name t)⟩
    | @undefined name t _ => exact ⟨t, rfl, .span ctx.scopes (.reference name t)⟩
    | @value name t value _ hvalue hf =>
      obtain ⟨s, hs, hknown⟩ := ih hf
      exact ⟨s, hs, Scopes.KnowsSpan.of_value hknown hvalue _⟩
    | operand hx hf =>
      obtain ⟨s, hs, hknown⟩ := ih hf
      exact ⟨s, hs, hknown.of_operand hx⟩
    | @operation l r a b op t cause _ _ _ => exact ⟨t, rfl, .span ctx.scopes (.operation l op r t)⟩
    | @answer site args values t b _ hvalues _ hf =>
      obtain ⟨-, s, hs, rfl | ⟨w, hw, rfl⟩⟩ := b.apply_fails _ _ hf
      · exact ⟨_, hs, .site ctx.scopes site args t⟩
      · -- The span of an argument that is refused is in that argument's value.
        obtain ⟨x, hx, hrun⟩ := hvalues.exists_of_mem hw
        exact ⟨_, hs, (h.knowsSpan_of_run hrun w.span_mem_spans).of_operand hx⟩

end Library.Standard

theorem spans_are_taken_over {lib : Library} (h : lib.Standard) (e : Expr) (ctx : Context) (depth : Nat) :
    (∀ v after, (e.evaluate lib depth).run ctx = .value v after →
      v.span = e.valueSpan ∧ ∀ s ∈ v.spans, ctx.scopes.KnowsSpan e s) ∧
    ∀ f after, (e.evaluate lib depth).run ctx = .fault f after →
      ∃ s, f.span = some s ∧ ctx.scopes.KnowsSpan e s :=
  ⟨fun _ _ hrun => ⟨Expr.span_of_run hrun, fun _ hs => h.knowsSpan_of_run hrun hs⟩,
    fun _ _ hrun => h.knowsSpan_of_fault hrun⟩

/-- A call whose site lies elsewhere gets a list that a variable stands for. A second variable is a division by
zero, and its failure lies in its value and not in the expression that refers to it. -/
theorem spans_are_taken_over_from_bound_values :
    let number (x : Float) (s : Span) : Expr := .atom (.number ⟨x, none⟩) s
    let scopes := (Scopes.define {} "a" (.list [number 1 ⟨1, 2⟩] ⟨0, 3⟩)).define "b"
      (.operation (number 1 ⟨4, 5⟩) .div (number 0 ⟨6, 7⟩) ⟨4, 7⟩)
    let ctx : Context := { options := { strictMath := true }, scopes }
    let f (name : String) : Expr := .list [.reference name ⟨10, 12⟩, .call ⟨"f", ⟨20, 21⟩⟩ [] ⟨13, 16⟩] ⟨10, 16⟩
    (∃ v, ((f "a").evaluate .empty 4).run ctx = .value v ctx ∧ v.span = ⟨10, 16⟩ ∧
      v.spans = [⟨10, 16⟩, ⟨10, 12⟩, ⟨1, 2⟩, ⟨20, 21⟩] ∧ ∀ s ∈ v.spans, scopes.KnowsSpan (f "a") s) ∧
    ∃ fault, ((f "b").evaluate .empty 4).run ctx = .fault fault ctx ∧ fault.span = some ⟨4, 7⟩ ∧
      scopes.KnowsSpan (f "b") ⟨4, 7⟩ ∧ ⟨4, 7⟩ ∉ (f "b").spans := by
  intro number scopes ctx f
  have hvalue : ((f "a").evaluate .empty 4).run ctx = .value (.list [.list [number 1 ⟨1, 2⟩] ⟨10, 12⟩,
      .atom (.text "f()") ⟨20, 21⟩] ⟨10, 16⟩) ctx := rfl
  have hfault : ((f "b").evaluate .empty 4).run ctx = .fault (Cause.divisionByZero.atSpan ⟨4, 7⟩) ctx := rfl
  obtain ⟨hspan, hspans⟩ := (spans_are_taken_over (.inl rfl) (f "a") ctx 4).1 _ _ hvalue
  obtain ⟨s, hs, hknown⟩ := (spans_are_taken_over (.inl rfl) (f "b") ctx 4).2 _ _ hfault
  cases hs
  exact ⟨⟨_, hvalue, hspan, rfl, hspans⟩, _, hfault, rfl, hknown, by decide⟩

end StyleValue
