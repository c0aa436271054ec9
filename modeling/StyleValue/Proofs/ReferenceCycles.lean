import Mathlib.Logic.Relation
import StyleValue.Proofs.ExposedNodes
import StyleValue.Proofs.StandardLibrary

set_option autoImplicit false

namespace StyleValue

open Relation

/-- The expression refers to the variable outside deferred operations. -/
def Expr.Mentions (e : Expr) (name : String) : Prop := ∃ s, .reference name s ∈ e.exposed

namespace Scopes

def Mentions (scopes : Scopes) (name other : String) : Prop :=
  ∃ value, scopes.lookup name = some value ∧ value.Mentions other

def Reaches (scopes : Scopes) (e : Expr) (name : String) : Prop :=
  ∃ first, e.Mentions first ∧ ReflTransGen scopes.Mentions first name

def Circular (scopes : Scopes) (name : String) : Prop := TransGen scopes.Mentions name name

end Scopes

namespace Expr

theorem mentions_reference (name : String) (s : Span) : (reference name s).Mentions name :=
  ⟨s, self_mem_exposed _⟩

theorem Mentions.exists_operand {e : Expr} {name : String} (h : e.Mentions name)
    (he : e.isReference = false) : ∃ x ∈ e.operands false, x.Mentions name := by
  obtain ⟨s, hs⟩ := h
  rcases mem_exposed.mp hs with rfl | ⟨x, hx, hs⟩
  · cases he
  · exact ⟨x, hx, s, hs⟩

theorem Mentions.of_operand {e x : Expr} {name : String} (h : x.Mentions name)
    (hx : x ∈ e.operands false) : e.Mentions name := by
  obtain ⟨s, hs⟩ := h
  exact ⟨s, mem_exposed_of_operand hx hs⟩

theorem Mentions.of_suppress {e : Expr} {name : String} (h : e.suppress.Mentions name) :
    e.Mentions name := by
  have hparts : ∀ {es : List Expr}, (∀ a ∈ es, a.suppress.Mentions name → a.Mentions name) →
      (∃ x ∈ es.map suppress, x.Mentions name) → ∃ a ∈ es, a.Mentions name := by
    rintro es ih ⟨x, hx, hname⟩
    obtain ⟨a, ha, rfl⟩ := List.mem_map.mp hx
    exact ⟨a, ha, ih a ha hname⟩
  induction e using byParts with
  | atom v s => exact h
  | reference other s => exact h
  | deferred l op r s => exact h
  | operation l op r s =>
    obtain ⟨x, hx, -⟩ := h.exists_operand rfl
    cases hx
  | call site args s ih =>
    rw [suppress_call] at h
    obtain ⟨a, ha, hname⟩ := hparts ih (h.exists_operand rfl)
    exact hname.of_operand ha
  | list items s ih =>
    rw [suppress_list] at h
    obtain ⟨a, ha, hname⟩ := hparts ih (h.exists_operand rfl)
    exact hname.of_operand ha

theorem Mentions.of_operand_of_mode {strict : Bool} {e x : Expr} {name : String} (h : x.Mentions name)
    (hx : x ∈ e.operands strict) : e.Mentions name := by
  obtain ⟨a, ha, rfl | rfl⟩ := Expr.exists_operand hx
  · exact h.of_operand ha
  · exact h.of_suppress.of_operand ha

end Expr

namespace Library.Standard

variable {lib : Library} (h : lib.Standard)
include h

/-- A cycle is reported at a variable within reach that was pending from the start or leads back to
itself. -/
theorem reaches_of_cyclic {e : Expr} {ctx after : Context} {depth : Nat} {f : Fault} {name : String}
    (hrun : (e.evaluate lib depth).run ctx = .fault f after) (hf : f.cause = .cyclic name) :
    ctx.scopes.Reaches e name ∧ (name ∈ ctx.pending ∨ ctx.scopes.Circular name) := by
  induction depth generalizing e ctx after with
  | zero => cases hrun
  | succ depth ih =>
    have heval := h.restores_evaluate depth
    cases he : e.isReference with
    | true =>
      obtain ⟨var, s, rfl⟩ := Expr.eq_reference he
      rcases Eval.fault_of_resolve heval hrun with ⟨rfl, hp⟩ | ⟨rfl, -⟩ | ⟨value, hv, hvalue⟩
      · cases hf
        exact ⟨⟨name, Expr.mentions_reference name s, .refl⟩, .inl hp⟩
      · cases hf
      · obtain ⟨⟨first, hfirst, hpath⟩, hend⟩ := ih hvalue
        have hmention : ctx.scopes.Mentions var first := ⟨value, hv, hfirst⟩
        refine ⟨⟨var, Expr.mentions_reference var s, .head hmention hpath⟩, ?_⟩
        rcases hend with hp | hcircular
        · rcases List.mem_cons.mp hp with rfl | hp
          · exact .inr (.head' hmention hpath)
          · exact .inl hp
        · exact .inr hcircular
    | false =>
      obtain ⟨x, hx, hrun⟩ := h.cyclic_of_step heval he hf hrun
      obtain ⟨⟨first, hfirst, hpath⟩, hend⟩ := ih hrun
      exact ⟨⟨first, hfirst.of_operand_of_mode hx, hpath⟩, hend⟩

end Library.Standard

def Context.Evaluates (lib : Library) (ctx : Context) (depth : Nat) (name : String) : Prop :=
  ∃ value pending v after, ctx.scopes.lookup name = some value ∧
    (value.evaluate lib depth).run { ctx with pending } = .value v after

namespace Library.Restores

variable {lib : Library} (h : lib.Restores) {ctx : Context} {depth : Nat} {name other : String}
include h

theorem evaluates_of_mentions {e v : Expr} {after : Context} (hstrict : ctx.options.strictMath = false)
    (hrun : (e.evaluate lib depth).run ctx = .value v after) (hname : e.Mentions name) :
    ∃ depth' < depth, ctx.Evaluates lib depth' name := by
  induction depth generalizing e ctx v after with
  | zero => cases hrun
  | succ depth ih =>
    have heval := Expr.restores_evaluate h depth
    cases he : e.isReference with
    | true =>
      obtain ⟨var, s, rfl⟩ := Expr.eq_reference he
      obtain ⟨s', hs⟩ := hname
      cases List.mem_singleton.mp hs
      obtain ⟨-, value, w, hv, hvalue, -⟩ := Eval.value_of_resolve heval hrun
      exact ⟨depth, Nat.lt_succ_self depth, value, name :: ctx.pending, w, _, hv, hvalue⟩
    | false =>
      obtain ⟨x, hx, hname⟩ := hname.exists_operand he
      have hvalues := Expr.value_of_step heval he hrun
      rw [hstrict] at hvalues
      obtain ⟨w, hw⟩ := hvalues x hx
      obtain ⟨depth', hlt, hend⟩ := ih hstrict hw hname
      exact ⟨depth', Nat.lt_succ_of_lt hlt, hend⟩

theorem evaluates_of_path (hstrict : ctx.options.strictMath = false) (hname : ctx.Evaluates lib depth name)
    (hpath : TransGen ctx.scopes.Mentions name other) : ∃ depth' < depth, ctx.Evaluates lib depth' other := by
  have hstep : ∀ {depth x y}, ctx.Evaluates lib depth x → ctx.scopes.Mentions x y →
      ∃ depth' < depth, ctx.Evaluates lib depth' y := by
    rintro depth x y ⟨value, pending, v, after, hv, hrun⟩ ⟨value', hv', hy⟩
    cases hv.symm.trans hv'
    have hend : ∃ depth' < depth, Context.Evaluates lib { ctx with pending } depth' y :=
      h.evaluates_of_mentions hstrict hrun hy
    exact hend
  induction hpath with
  | single hmention => exact hstep hname hmention
  | tail _ hmention ih =>
    obtain ⟨depth', hlt, hend⟩ := ih
    obtain ⟨depth'', hlt', hend'⟩ := hstep hend hmention
    exact ⟨depth'', Nat.lt_trans hlt' hlt, hend'⟩

theorem not_circular_of_evaluates (hstrict : ctx.options.strictMath = false)
    (hname : ctx.Evaluates lib depth name) : ¬ ctx.scopes.Circular name := by
  intro hcircular
  induction depth using Nat.strongRecOn with
  | ind depth ih =>
    obtain ⟨depth', hlt, hend⟩ := h.evaluates_of_path hstrict hname hcircular
    exact ih depth' hlt hend

theorem evaluates_of_reaches {e v : Expr} {after : Context} (hstrict : ctx.options.strictMath = false)
    (hrun : (e.evaluate lib depth).run ctx = .value v after) (hname : ctx.scopes.Reaches e name) :
    ∃ depth', ctx.Evaluates lib depth' name := by
  obtain ⟨first, hfirst, hpath⟩ := hname
  obtain ⟨depth', -, hend⟩ := h.evaluates_of_mentions hstrict hrun hfirst
  rcases reflTransGen_iff_eq_or_transGen.mp hpath with rfl | hpath
  · exact ⟨depth', hend⟩
  · obtain ⟨depth'', -, hend⟩ := h.evaluates_of_path hstrict hend hpath
    exact ⟨depth'', hend⟩

end Library.Restores

theorem cycles_are_found {lib : Library} (h : lib.Standard) {ctx : Context} (hpending : ctx.pending = [])
    (e : Expr) (depth : Nat) :
    (∀ f after name, (e.evaluate lib depth).run ctx = .fault f after → f.cause = .cyclic name →
      ctx.scopes.Reaches e name ∧ ctx.scopes.Circular name) ∧
    (ctx.options.strictMath = false → ∀ v after, (e.evaluate lib depth).run ctx = .value v after →
      ∀ name, ctx.scopes.Reaches e name →
        (∃ value, ctx.scopes.lookup name = some value) ∧ ¬ ctx.scopes.Circular name) := by
  constructor
  · intro f after name hrun hf
    obtain ⟨hreach, hend⟩ := h.reaches_of_cyclic hrun hf
    rw [hpending] at hend
    exact ⟨hreach, hend.resolve_left List.not_mem_nil⟩
  · intro hstrict v after hrun name hreach
    have hlib := h.library_restores
    obtain ⟨depth', hend⟩ := hlib.evaluates_of_reaches hstrict hrun hreach
    have hcircular := hlib.not_circular_of_evaluates hstrict hend
    obtain ⟨value, -, -, -, hv, -⟩ := hend
    exact ⟨⟨value, hv⟩, hcircular⟩

/-- Two variables refer to a third one, which has a value in the first context and leads back to one of the
two in the second. -/
theorem cycles_are_found_beside_shared_variable :
    let scopes := (Scopes.define {} "b" (.reference "a" ⟨1, 3⟩)).define "c" (.reference "a" ⟨4, 6⟩)
    let shared (value : Expr) : Context := { scopes := scopes.define "a" value }
    let e : Expr := .list [.reference "b" ⟨7, 9⟩, .reference "c" ⟨10, 12⟩] ⟨7, 12⟩
    let plain := shared (.atom (.keyword "auto") ⟨0, 1⟩)
    let looping := shared (.reference "c" ⟨0, 1⟩)
    (plain.scopes.Reaches e "a" ∧ ¬ plain.scopes.Circular "a") ∧
      looping.scopes.Reaches e "a" ∧ looping.scopes.Circular "a" := by
  intro scopes shared e plain looping
  have hplain : (e.evaluate .builtin 5).run plain = .value (.list [.atom (.keyword "auto") ⟨7, 9⟩,
      .atom (.keyword "auto") ⟨10, 12⟩] ⟨7, 12⟩) plain := rfl
  have hlooping : (e.evaluate .builtin 5).run looping =
      .fault ((Cause.cyclic "a").atSpan ⟨4, 6⟩) looping := rfl
  have hreach : plain.scopes.Reaches e "a" :=
    ⟨"b", (Expr.mentions_reference "b" ⟨7, 9⟩).of_operand List.mem_cons_self,
      .single ⟨.reference "a" ⟨1, 3⟩, rfl, Expr.mentions_reference "a" ⟨1, 3⟩⟩⟩
  exact ⟨⟨hreach, ((cycles_are_found (.inr rfl) rfl e 5).2 rfl _ _ hplain "a" hreach).2⟩,
    (cycles_are_found (.inr rfl) rfl e 5).1 _ _ "a" hlooping rfl⟩

end StyleValue
