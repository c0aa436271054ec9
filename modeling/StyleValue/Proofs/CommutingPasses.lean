import StyleValue.Proofs.SimultaneousSubstitution

set_option autoImplicit false

namespace StyleValue

namespace Expr

theorem references_suppress (e : Expr) : e.suppress.references = e.references := by
  have heach {es : List Expr} (ih : ∀ a ∈ es, a.suppress.references = a.references) :
      (es.map suppress).flatMap references = es.flatMap references := by
    rw [List.flatMap_map]
    exact List.flatMap_congr ih
  induction e using byParts with
  | atom v s => rfl
  | reference name s => rfl
  | operation l op r s => rw [suppress_operation, references_deferred, references_operation]
  | deferred l op r s => rfl
  | call site args s ih => rw [suppress_call, references_call, references_call, heach ih]
  | list items s ih => rw [suppress_list, references_list, references_list, heach ih]

theorem suppress_relocate (s : Span) (e : Expr) : (e.relocate s).suppress = e.suppress.relocate s := by
  cases e with
  | call site args t => rw [relocate, suppress_call, suppress_call, relocate]
  | list items t => rw [relocate, suppress_list, suppress_list, relocate]
  | _ => rfl

theorem fill_suppress {value? : String → Option Expr}
    (hvalue : ∀ name value, value? name = some value → value.Settled) (e : Expr) :
    e.suppress.fill value? = (e.fill value?).suppress := by
  have heach {es : List Expr} (ih : ∀ a ∈ es, a.suppress.fill value? = (a.fill value?).suppress) :
      fillEach value? (es.map suppress) = (fillEach value? es).map suppress := by
    rw [fillEach_eq_map, fillEach_eq_map, List.map_map, List.map_map]
    exact List.map_congr_left ih
  induction e using byParts with
  | atom v s => rfl
  | reference name s =>
    rw [suppress_reference, fill]
    cases h : value? name with
    | none => rfl
    | some value =>
      change value.relocate s = (value.relocate s).suppress
      rw [suppress_relocate, suppress_of_settled (hvalue name value h)]
  | operation l op r s => rw [suppress_operation, fill, fill, suppress_operation]
  | deferred l op r s => rw [suppress_deferred, fill, suppress_deferred]
  | call site args s ih => rw [suppress_call, fill, fill, suppress_call, heach ih]
  | list items s ih => rw [suppress_list, fill, fill, suppress_list, heach ih]

end Expr

theorem suppression_commutes_with_substitution {bindings : Bindings}
    (h : ∀ name value, bindings.find? name = some value → value.Settled) (e : Expr) (n : Nat) :
    ((substitution bindings).visit ((suppression.visit e).run ()).1).run n =
      (((suppression.visit (((substitution bindings).visit e).run n).1).run ()).1,
        (((substitution bindings).visit e).run n).2) := by
  change ((substitution bindings).visit e.suppress).run n =
    ((((substitution bindings).visit e).run n).1.suppress, (((substitution bindings).visit e).run n).2)
  rw [Expr.run_substitution, Expr.run_substitution, Expr.fill_suppress h, Expr.references_suppress]

/-- One variable is in an operation and outside of all, and its value has a deferred operation. -/
theorem suppression_commutes_with_substitution_of_deferred :
    let word (w : String) : Expr := .atom (.keyword w) ⟨0, 1⟩
    let value : Expr := .list [.deferred (word "x") .div (word "y") ⟨2, 5⟩] ⟨2, 6⟩
    let bindings : Bindings := Table.empty.insert "a" value
    let e : Expr := .call ⟨"f", ⟨7, 8⟩⟩ [.operation (.reference "a" ⟨9, 11⟩) .add
      (.operation (word "z") .sub (.reference "a" ⟨12, 14⟩) ⟨12, 15⟩) ⟨9, 15⟩, .reference "a" ⟨16, 18⟩] ⟨7, 19⟩
    let e' : Expr := .call ⟨"f", ⟨7, 8⟩⟩ [.deferred (value.relocate ⟨9, 11⟩) .add
      (.operation (word "z") .sub (value.relocate ⟨12, 14⟩) ⟨12, 15⟩) ⟨9, 15⟩, value.relocate ⟨16, 18⟩] ⟨7, 19⟩
    value.Settled ∧ ((substitution bindings).visit ((suppression.visit e).run ()).1).run 0 = (e', 3) := by
  intro word value bindings e e'
  have hsettled : value.Settled := by
    simp [Expr.Settled, Expr.exposed, Expr.exposedEach, value, Expr.isOperation]
  refine ⟨hsettled, suppression_commutes_with_substitution (fun name v hv => ?_) e 0⟩
  rw [Table.find?_insert] at hv
  split at hv
  · cases hv
    exact hsettled
  · cases hv

end StyleValue
