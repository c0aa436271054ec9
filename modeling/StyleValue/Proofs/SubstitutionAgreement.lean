import StyleValue.Proofs.Expansion
import StyleValue.Proofs.ExposedNodes
import StyleValue.Proofs.SpanMaps

set_option autoImplicit false

namespace StyleValue

def Context.eraseSpans (ctx : Context) : Context := ctx.mapSpans fun _ => .nowhere

/-- Equal up to spans and to the name in which a cycle is found. -/
def AgreeUpToSpans : Except Fault Expr → Except Fault Expr → Prop
  | .ok v, .ok v' => v.eraseSpans = v'.eraseSpans
  | .error f, .error f' => f.cause = f'.cause ∨ f.IsCyclic ∧ f'.IsCyclic
  | _, _ => False

namespace Expr

theorem operands_fill (value? : String → Option Expr) {e : Expr} (he : e.isReference = false) :
    (e.fill value?).operands false = (e.operands false).map (fill value?) := by
  cases e with
  | reference name s => cases he
  | call site args s => exact fillEach_eq_map value? args
  | list items s => exact fillEach_eq_map value? items
  | _ => rfl

theorem finish_eraseSpans_fill (lib : Library) (eval : Expr → Eval Expr) (value? : String → Option Expr)
    {e : Expr} (he : e.isReference = false) (hd : e.isDeferred = false) (values : List Expr) :
    (e.fill value?).eraseSpans.finish lib eval values = e.eraseSpans.finish lib eval values := by
  cases e with
  | reference name s => cases he
  | deferred l op r s => cases hd
  | operation l op r s =>
    match values with
    | [a, b] => rfl
    | [] | [_] | _ :: _ :: _ :: _ => rfl
  | _ => rfl

theorem isReference_fill (value? : String → Option Expr) {e : Expr} (he : e.isReference = false) :
    (e.fill value?).isReference = false := by
  cases e with
  | reference name s => cases he
  | _ => rfl

theorem isReference_eraseSpans (e : Expr) : e.eraseSpans.isReference = e.isReference := by
  cases e <;> rfl

end Expr

theorem Eval.Mapped.unpended {α β : Type} {σ : Span → Span} {g : α → β} {m : Eval α} {m' : Eval β}
    (hm : Mapped σ g m m') : Mapped σ g m.unpended m'.unpended := by
  intro ctx
  have hcleared : m'.run (ctx.mapSpans σ).cleared = (m.run ctx.cleared).mapSpans σ g := hm ctx.cleared
  rw [Eval.run_unpended, Eval.run_unpended, hcleared]
  cases m.run ctx.cleared <;> rfl

namespace Library.Standard

variable {lib : Library} (h : lib.Standard)
include h

theorem mapped_expand (σ : Span → Span) (depth : Nat) (e : Expr) :
    Eval.Mapped σ (Expr.mapSpans σ) (e.expand lib depth) ((e.mapSpans σ).expand lib depth) := by
  induction depth generalizing e with
  | zero => exact fun _ => rfl
  | succ depth ih => exact (h.mapped_step ih e).unpended

/-- Without spans, a reference expands to what its value expands to. -/
theorem result_expand_reference {ctx : Context} {name : String} {value : Expr}
    (hv : ctx.scopes.lookup name = some value) (depth : Nat) :
    (((Expr.reference name .nowhere).expand lib (depth + 1)).run ctx.eraseSpans).result? =
      ((value.eraseSpans.expand lib depth).run ctx.eraseSpans).result? := by
  have hlookup : ctx.eraseSpans.cleared.scopes.lookup name = some value.eraseSpans := by
    have hmap := ctx.scopes.lookup_mapSpans (fun _ => .nowhere) name
    rw [hv] at hmap
    exact hmap
  have hclear : (ctx.eraseSpans.cleared.pend name).cleared = ctx.eraseSpans.cleared := rfl
  rw [Expr.result_expand_succ]
  change ((Eval.resolve (Expr.expand lib depth) name .nowhere).run ctx.eraseSpans.cleared).result? = _
  rw [Eval.result_resolve_bound List.not_mem_nil hlookup,
    Expr.result_expand_of_cleared lib depth value.eraseSpans hclear]
  have hmap : (value.eraseSpans.expand lib depth).run ctx.eraseSpans = _ :=
    h.mapped_expand (fun _ => .nowhere) depth value ctx
  rw [hmap]
  cases (value.expand lib depth).run ctx with
  | value v after => exact congrArg (fun v => some (Except.ok v)) v.relocate_eraseSpans
  | fault f after => rfl
  | tooDeep => rfl

end Library.Standard

namespace Expr

variable {ctx : Context} (hstrict : ctx.options.strictMath = false)
include hstrict

theorem operands_eraseSpans (e : Expr) :
    e.eraseSpans.operands ctx.eraseSpans.cleared.options.strictMath =
      (e.operands false).map eraseSpans := by
  rw [show ctx.eraseSpans.cleared.options.strictMath = false from hstrict]
  exact operands_mapSpans false _ e

theorem operands_eraseSpans_fill (value? : String → Option Expr) {e : Expr}
    (he : e.isReference = false) :
    (e.fill value?).eraseSpans.operands ctx.eraseSpans.cleared.options.strictMath =
      (e.operands false).map fun x => (x.fill value?).eraseSpans := by
  rw [operands_eraseSpans hstrict, operands_fill value? he, List.map_map]
  rfl

end Expr

namespace Library.Standard

variable {lib : Library} (h : lib.Standard) {ctx : Context} (hstrict : ctx.options.strictMath = false)
  {value? : String → Option Expr}
  (hvalue : ∀ name value, value? name = some value → ctx.scopes.lookup name = some value)
include h hstrict hvalue

theorem expand_follows_fill (depth : Nat) {e : Expr} (he : ∀ x ∈ e.exposed, x.isDeferred = false) :
    ((e.eraseSpans.expand lib depth).run ctx.eraseSpans).Follows Outcome.noFault
      (((e.fill value?).eraseSpans.expand lib depth).run ctx.eraseSpans) := by
  induction depth generalizing e with
  | zero => trivial
  | succ depth ih =>
    cases hr : e.isReference with
    | true =>
      obtain ⟨name, s, rfl⟩ := Expr.eq_reference hr
      rw [Expr.fill]
      cases hv : value? name with
      | none => exact .refl _ _
      | some value =>
        change (((Expr.reference name .nowhere).expand lib (depth + 1)).run _).Follows _
          (((value.relocate s).eraseSpans.expand lib (depth + 1)).run _)
        rw [Expr.eraseSpans_relocate]
        exact (h.expand_follows_succ depth _ _).congr (h.result_expand_reference (hvalue name value hv) depth) rfl
    | false =>
      refine .congr ?_ (Expr.result_expand_succ lib depth _ _) (Expr.result_expand_succ lib depth _ _)
      have hrest := Expr.restores_expand lib depth
      refine h.step_follows_of_map hrest hrest (e.isReference_eraseSpans.trans hr)
        ((Expr.isReference_eraseSpans _).trans (Expr.isReference_fill value? hr)) _ _ _
        (Expr.operands_eraseSpans hstrict e) (Expr.operands_eraseSpans_fill hstrict value? hr)
        (Expr.finish_eraseSpans_fill lib _ value? hr (he e e.self_mem_exposed)) rfl fun x hx => ?_
      have hfollows := ih fun y hy => he y (Expr.mem_exposed_of_operand hx hy)
      exact hfollows.congr (Expr.result_expand_of_cleared lib depth _ rfl)
        (Expr.result_expand_of_cleared lib depth _ rfl)

theorem expand_fill_follows (depth : Nat) {e : Expr} (he : ∀ x ∈ e.exposed, x.isDeferred = false) :
    (((e.fill value?).eraseSpans.expand lib depth).run ctx.eraseSpans).Follows Outcome.noFault
      ((e.eraseSpans.expand lib (depth + 1)).run ctx.eraseSpans) := by
  induction depth generalizing e with
  | zero => trivial
  | succ depth ih =>
    cases hr : e.isReference with
    | true =>
      obtain ⟨name, s, rfl⟩ := Expr.eq_reference hr
      rw [Expr.fill]
      cases hv : value? name with
      | none => exact h.expand_follows_succ (depth + 1) _ _
      | some value =>
        change (((value.relocate s).eraseSpans.expand lib (depth + 1)).run _).Follows _
          (((Expr.reference name .nowhere).expand lib (depth + 1 + 1)).run _)
        rw [Expr.eraseSpans_relocate]
        refine .of_result fun r hresult => ?_
        rw [h.result_expand_reference (hvalue name value hv)]
        exact hresult
    | false =>
      refine .congr ?_ (Expr.result_expand_succ lib depth _ _) (Expr.result_expand_succ lib _ _ _)
      refine h.step_follows_of_map (Expr.restores_expand lib depth) (Expr.restores_expand lib (depth + 1))
        ((Expr.isReference_eraseSpans _).trans (Expr.isReference_fill value? hr))
        (e.isReference_eraseSpans.trans hr) _ _ _ (Expr.operands_eraseSpans_fill hstrict value? hr)
        (Expr.operands_eraseSpans hstrict e)
        (fun values => (Expr.finish_eraseSpans_fill lib _ value? hr (he e e.self_mem_exposed) values).symm)
        rfl fun x hx => ?_
      have hfollows := ih fun y hy => he y (Expr.mem_exposed_of_operand hx hy)
      exact hfollows.congr (Expr.result_expand_of_cleared lib depth _ rfl)
        (Expr.result_expand_of_cleared lib _ _ rfl)

theorem expands_fill_iff {e : Expr} (he : ∀ x ∈ e.exposed, x.isDeferred = false) (r : Except Fault Expr) :
    (e.fill value?).eraseSpans.Expands lib ctx.eraseSpans r ↔
      e.eraseSpans.Expands lib ctx.eraseSpans r := by
  constructor
  · rintro ⟨depth, hr⟩
    exact ⟨depth + 1, (h.expand_fill_follows hstrict hvalue depth he).result_of_noFault hr⟩
  · rintro ⟨depth, hr⟩
    exact ⟨depth, (h.expand_follows_fill hstrict hvalue depth he).result_of_noFault hr⟩

end Library.Standard

def FailsAsCyclic (r : Except Fault Expr) : Prop := ∃ f, r = .error f ∧ f.IsCyclic

theorem agreeUpToSpans_of_mapped {r r' q q' : Except Fault Expr}
    (hq : Mapped (fun _ => .nowhere) Expr.eraseSpans r q)
    (hq' : Mapped (fun _ => .nowhere) Expr.eraseSpans r' q')
    (h : q = q' ∨ FailsAsCyclic q ∧ FailsAsCyclic q') : AgreeUpToSpans r r' := by
  cases r with
  | ok v =>
    cases r' with
    | ok v' =>
      cases hq
      cases hq'
      rcases h with h | ⟨⟨f, hf, -⟩, -⟩
      · exact Except.ok.inj h
      · cases hf
    | error f' =>
      cases hq
      cases hq'
      rcases h with h | ⟨⟨f, hf, -⟩, -⟩
      · cases h
      · cases hf
  | error f =>
    cases r' with
    | ok v' =>
      cases hq
      cases hq'
      rcases h with h | ⟨-, f, hf, -⟩
      · cases h
      · cases hf
    | error f' =>
      cases hq
      cases hq'
      rcases h with h | ⟨⟨g, hg, hcyc⟩, g', hg', hcyc'⟩
      · have hmap := Except.error.inj h
        exact .inl (congrArg Fault.cause hmap :)
      · cases hg
        cases hg'
        exact .inr ⟨hcyc, hcyc'⟩

namespace Library.Standard

variable {lib : Library} (h : lib.Standard) {ctx : Context}
include h

theorem yields_eraseSpans {e : Expr} {r : Except Fault Expr} (he : e.Yields lib ctx r) :
    ∃ q, Mapped (fun _ => .nowhere) Expr.eraseSpans r q ∧ e.eraseSpans.Yields lib ctx.eraseSpans q := by
  obtain ⟨depth, hrun⟩ := he
  have hmap : (e.eraseSpans.evaluate lib depth).run ctx.eraseSpans = _ :=
    h.mapped_evaluate (fun _ => .nowhere) depth e ctx
  rw [hrun depth (Nat.le_refl depth)] at hmap
  cases r with
  | ok v => exact ⟨_, rfl, h.yields_of_result (congrArg Outcome.result? hmap)⟩
  | error f => exact ⟨_, rfl, h.yields_of_result (congrArg Outcome.result? hmap)⟩

theorem yields_fill_iff {e : Expr} {value? : String → Option Expr}
    (hstrict : ctx.options.strictMath = false) (hpending : ctx.pending = [])
    (he : ∀ x ∈ e.exposed, x.isDeferred = false)
    (hvalue : ∀ name value, value? name = some value → ctx.scopes.lookup name = some value)
    {q : Except Fault Expr} (hq : ¬ FailsAsCyclic q) :
    (e.fill value?).eraseSpans.Yields lib ctx.eraseSpans q ↔ e.eraseSpans.Yields lib ctx.eraseSpans q := by
  have hnot : ∀ f, q = .error f → ¬ f.IsCyclic := fun f hf hcyc => hq ⟨f, hf, hcyc⟩
  constructor
  · intro hy
    exact h.yields_of_expands hpending
      ((h.expands_fill_iff hstrict hvalue he q).mp (h.expands_of_yields hy hnot))
  · intro hy
    exact h.yields_of_expands hpending
      ((h.expands_fill_iff hstrict hvalue he q).mpr (h.expands_of_yields hy hnot))

end Library.Standard

theorem substitution_agrees_with_resolution {lib : Library} (h : lib.Standard) {ctx : Context}
    (hstrict : ctx.options.strictMath = false) (hpending : ctx.pending = []) {bindings : Bindings}
    (hbound : ∀ name value, bindings.find? name = some value → ctx.scopes.lookup name = some value)
    {e : Expr} (he : ∀ x ∈ e.exposed, x.isDeferred = false) :
    ∃ r r', (e.substitute bindings).1.Yields lib ctx r ∧ e.Yields lib ctx r' ∧ AgreeUpToSpans r r' := by
  rw [Expr.substitute_eq_fill]
  obtain ⟨r, hr⟩ := h.exists_yields (e.fill bindings.find?) ctx
  obtain ⟨r', hr'⟩ := h.exists_yields e ctx
  obtain ⟨q, hq, hy⟩ := h.yields_eraseSpans hr
  obtain ⟨q', hq', hy'⟩ := h.yields_eraseSpans hr'
  refine ⟨r, r', hr, hr', agreeUpToSpans_of_mapped hq hq' ?_⟩
  by_cases hcyc : FailsAsCyclic q
  · by_cases hcyc' : FailsAsCyclic q'
    · exact .inr ⟨hcyc, hcyc'⟩
    · exact .inl (hy.unique ((h.yields_fill_iff hstrict hpending he hbound hcyc').mpr hy'))
  · exact .inl (((h.yields_fill_iff hstrict hpending he hbound hcyc).mp hy).unique hy')

/-- Of two variables that stand for each other, one is substituted. -/
theorem substitution_agrees_with_resolution_in_cycle :
    let scopes := (Scopes.define {} "a" (.reference "b" ⟨1, 3⟩)).define "b" (.reference "a" ⟨4, 6⟩)
    let ctx : Context := { scopes }
    let bindings : Bindings := Table.empty.insert "a" (.reference "b" ⟨1, 3⟩)
    let e : Expr := .operate (.atom (.number ⟨1, none⟩) ⟨7, 8⟩) .add (.reference "a" ⟨9, 11⟩)
    ∃ r r', (e.substitute bindings).1.Yields .builtin ctx r ∧ e.Yields .builtin ctx r' ∧
      AgreeUpToSpans r r' := by
  intro scopes ctx bindings e
  refine substitution_agrees_with_resolution (.inr rfl) rfl rfl ?_ (by decide)
  intro name value hv
  rw [Table.find?_insert] at hv
  split at hv
  · subst name
    exact hv
  · cases hv

end StyleValue
