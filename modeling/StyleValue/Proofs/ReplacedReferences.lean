import StyleValue.Proofs.SpanOrigins

set_option autoImplicit false

namespace StyleValue

namespace Expr

theorem substitute_reference {bindings : Bindings} {name : String} {value : Expr}
    (h : bindings.find? name = some value) (s : Span) :
    ((reference name s).substitute bindings).1 = value.relocate s := by
  rw [substitute_eq_fill, fill, h]

theorem valueSpan_relocate_iff (e : Expr) (s : Span) :
    (e.relocate s).valueSpan = s ↔ ∀ site args t, e = .call site args t → site.span = s := by
  cases e with
  | call site args t =>
    constructor
    · rintro h site' args' t' heq
      cases heq
      exact h
    · exact fun h => h site args t rfl
  | atom v t => exact iff_of_true rfl nofun
  | reference name t => exact iff_of_true rfl nofun
  | operation l op r t => exact iff_of_true rfl nofun
  | deferred l op r t => exact iff_of_true rfl nofun
  | list items t => exact iff_of_true rfl nofun

end Expr

/-- The functions that are called may be any, and the two evaluations may nest to different depths. -/
theorem substituted_reference_keeps_place_iff {lib : Library} {bindings : Bindings} {name : String}
    {s : Span} {value : Expr} {ctx : Context} (hbinding : bindings.find? name = ctx.scopes.lookup name)
    (hvalue : ctx.scopes.lookup name = some value) {depth depth' : Nat} {resolved substituted : Expr}
    {after after' : Context}
    (hresolved : ((Expr.reference name s).evaluate lib depth).run ctx = .value resolved after)
    (hsubstituted : (((Expr.reference name s).substitute bindings).1.evaluate lib depth').run ctx =
      .value substituted after') :
    resolved.span = s ∧
      (substituted.span = s ↔ ∀ site args t, value = .call site args t → site.span = s) := by
  refine ⟨Expr.span_of_run hresolved, ?_⟩
  rw [Expr.span_of_run hsubstituted, Expr.substitute_reference (hbinding.trans hvalue)]
  exact Expr.valueSpan_relocate_iff value s

/-- A variable that refers to one whose value is a call. -/
theorem substituted_reference_keeps_place_iff_of_reference :
    let scopes := (Scopes.define {} "a" (.reference "b" ⟨4, 6⟩)).define "b" (.callAt ⟨"f", ⟨10, 13⟩⟩ [])
    let bindings : Bindings := .ofList [("a", .reference "b" ⟨4, 6⟩)]
    let ctx : Context := { scopes }
    ∃ resolved substituted,
      ((Expr.reference "a" ⟨20, 22⟩).evaluate .empty 3).run ctx = .value resolved ctx ∧
      (((Expr.reference "a" ⟨20, 22⟩).substitute bindings).1.evaluate .empty 3).run ctx =
        .value substituted ctx ∧
      resolved.span = ⟨20, 22⟩ ∧ substituted.span = ⟨20, 22⟩ := by
  intro scopes bindings ctx
  have hresolved : ((Expr.reference "a" ⟨20, 22⟩).evaluate .empty 3).run ctx =
      .value (.atom (.text "f()") ⟨20, 22⟩) ctx := rfl
  have hsubstituted : (((Expr.reference "a" ⟨20, 22⟩).substitute bindings).1.evaluate .empty 3).run ctx =
      .value (.atom (.text "f()") ⟨20, 22⟩) ctx := rfl
  obtain ⟨hplace, hiff⟩ := substituted_reference_keeps_place_iff rfl rfl hresolved hsubstituted
  exact ⟨_, _, hresolved, hsubstituted, hplace, hiff.mpr nofun⟩

theorem substituted_call_stays_at_site :
    let value : Expr := .callAt ⟨"f", ⟨5, 8⟩⟩ []
    let bindings : Bindings := .ofList [("a", value)]
    let ctx : Context := { scopes := Scopes.define {} "a" value }
    ∃ resolved substituted,
      ((Expr.reference "a" ⟨0, 2⟩).evaluate .empty 2).run ctx = .value resolved ctx ∧
      (((Expr.reference "a" ⟨0, 2⟩).substitute bindings).1.evaluate .empty 2).run ctx =
        .value substituted ctx ∧
      resolved.span = ⟨0, 2⟩ ∧ substituted.span = ⟨5, 8⟩ ∧ substituted.span ≠ resolved.span :=
  ⟨.atom (.text "f()") ⟨0, 2⟩, .atom (.text "f()") ⟨5, 8⟩, rfl, rfl, rfl, rfl, by decide⟩

end StyleValue
