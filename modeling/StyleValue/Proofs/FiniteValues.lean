import Mathlib.Logic.Relation
import StyleValue.Proofs.FiniteAnswers
import StyleValue.Proofs.NestedCalls

set_option autoImplicit false

namespace StyleValue

open Relation

namespace Evaluation

def Has (lib : Library) (ev : Evaluation) (v : Expr) : Prop := ev.expr.Yields lib ev.ctx (.ok v)

def Finite (ev : Evaluation) : Prop :=
  ev.expr.Finite ∧ ∀ name value, ev.ctx.scopes.lookup name = some value → value.Finite

/-- The evaluation itself computes an alpha or a channel that is not finite. -/
inductive Overflows (lib : Library) : Evaluation → Prop
  | alpha {l r a b : Expr} {op : Operator} {s : Span} {ctx : Context} (ha : l.Yields lib ctx (.ok a))
      (hb : r.Yields lib ctx (.ok b)) (hoverflow : a.AlphaOverflows b) :
      Overflows lib ⟨.operation l op r s, ctx⟩
  | channel {site : Site} {args values : List Expr} {s : Span} {ctx : Context} {b : Builtin}
      (hvalues : List.Forall₂ (fun x w => x.Yields lib ctx (.ok w))
        ((Expr.call site args s).operands ctx.options.strictMath) values)
      (hb : lib.find? site.name = some (.ofPure b.apply)) (hoverflow : b.ChannelOverflows ⟨site, values⟩) :
      Overflows lib ⟨.call site args s, ctx⟩

theorem Finite.of_calls {lib : Library} {ev ev' : Evaluation} (h : ev.Finite) (hcalls : ev.Calls lib ev') :
    ev'.Finite := by
  cases hcalls with
  | value hpending hvalue => exact ⟨h.2 _ _ hvalue, h.2⟩
  | operand before after hoperands hbefore =>
    exact ⟨h.1.operand (hoperands ▸ List.mem_append_cons_self), h.2⟩

theorem Finite.of_reaches {lib : Library} {ev ev' : Evaluation} (h : ev.Finite)
    (hreach : ReflTransGen (Calls lib) ev ev') : ev'.Finite := by
  induction hreach with
  | refl => exact h
  | tail _ hcalls ih => exact ih.of_calls hcalls

end Evaluation

namespace Library.Standard

open Evaluation

variable {lib : Library} (h : lib.Standard)
include h

theorem forall₂_yields_of_each {ctx : Context} {depth : Nat} {xs values : List Expr}
    (hvalues : Eval.Each (Expr.evaluate lib depth) ctx xs values) :
    List.Forall₂ (fun x w => x.Yields lib ctx (.ok w)) xs values :=
  hvalues.imp fun _ _ hrun => h.yields_of_run hrun

theorem exists_has {ev : Evaluation} {p : Expr → Bool} {depth : Nat}
    (htest : (match ev.run lib depth with | .value v _ => p v | _ => false) = true) :
    ∃ v, ev.Has lib v ∧ p v = true := by
  split at htest
  · next v after hrun => exact ⟨v, h.yields_of_run hrun, htest⟩
  · cases htest

theorem calls_of_each {e : Expr} {ctx : Context} {depth : Nat} {values : List Expr}
    (hvalues : Eval.Each (Expr.evaluate lib depth) ctx (e.operands ctx.options.strictMath) values)
    {w : Expr} (hw : w ∈ values) : ∃ ev, Calls lib ⟨e, ctx⟩ ev ∧ ev.Has lib w := by
  obtain ⟨before, x, after, hsplit, hbefore, hx⟩ := hvalues.exists_split hw
  refine ⟨⟨x, ctx⟩, .operand before after hsplit fun y hy => ?_, h.yields_of_run hx⟩
  obtain ⟨v, hv⟩ := hbefore y hy
  exact ⟨v, h.yields_of_run hv⟩

theorem finite_iff_of_calls {ev : Evaluation} {v : Expr} (hev : ev.Finite) (hv : ev.Has lib v)
    (hcalls : ∀ ev' w, ev.Calls lib ev' → ev'.Has lib w → w.Finite) : v.Finite ↔ ¬ ev.Overflows lib := by
  obtain ⟨e, ctx⟩ := ev
  obtain ⟨least, hrun⟩ := hv
  have hbecomes : e.Becomes lib (Expr.evaluate lib least) ctx v :=
    h.becomes_of_step (h.restores_evaluate least) (hrun (least + 1) (Nat.le_succ least))
  have hoperands {values : List Expr} (hvalues : Eval.Each (Expr.evaluate lib least) ctx
      (e.operands ctx.options.strictMath) values) : ∀ w ∈ values, w.Finite := by
    intro w hw
    obtain ⟨ev', hev', hvalue⟩ := h.calls_of_each hvalues hw
    exact hcalls ev' w hev' hvalue
  cases hbecomes with
  | atom a s => exact iff_of_true hev.1 nofun
  | deferred l op r s => exact iff_of_true hev.1 nofun
  | @reference name s value w hpending hvalue hw =>
    refine iff_of_true (Expr.Finite.relocate ?_ s) nofun
    exact hcalls ⟨value, ctx.pend name⟩ w (.value hpending hvalue) (h.yields_of_run hw)
  | @operation l r a b op s w ha hb hw =>
    have hvalues := hoperands (.cons ha (.cons hb .nil))
    have hfinite : w.Finite ↔ ¬ a.AlphaOverflows b :=
      Expr.combine_finite_iff (hvalues a (by simp)) (hvalues b (by simp)) op w hw
    rw [Expr.finite_atom, hfinite, not_iff_not]
    refine ⟨.alpha (h.yields_of_run ha) (h.yields_of_run hb), ?_⟩
    rintro (⟨ha', hb', hoverflow⟩ | _)
    cases (h.yields_of_run ha).unique ha'
    cases (h.yields_of_run hb).unique hb'
    exact hoverflow
  | @answer site args values s b w hvalues hb hw =>
    have hyields := h.forall₂_yields_of_each hvalues
    have hfinite : (Expr.atom w site.span).Finite ↔ ¬ b.ChannelOverflows ⟨site, values⟩ :=
      b.apply_finite_iff (hoperands hvalues) _ hw
    refine hfinite.trans (not_congr ⟨.channel hyields hb, ?_⟩)
    intro hoverflows
    cases hoverflows with
    | @channel _ _ values' _ _ b' hvalues' hb' hoverflow =>
      obtain rfl : values = values' :=
        List.right_unique_forall₂' (fun _ _ _ hx hx' => Except.ok.inj (hx.unique hx')) hyields hvalues'
      have happly : b.apply = b'.apply := Function.ofPure_injective (Option.some.inj (hb.symm.trans hb'))
      rw [happly] at hw
      by_contra hno
      exact (b'.apply_finite_iff (hoperands hvalues) _ hw).mp (hfinite.mpr hno) hoverflow
  | text hvalues hunknown =>
    refine iff_of_true (Expr.finite_atom.mpr trivial) ?_
    rintro (_ | ⟨_, hb, _⟩)
    rw [hunknown] at hb
    cases hb
  | list hvalues => exact iff_of_true (Expr.finite_list.mpr (hoperands hvalues)) nofun

theorem finite_of_run {ev : Evaluation} {v : Expr} (hev : ev.Finite) {depth : Nat}
    (hno : ∀ ev' w, ReflTransGen (Calls lib) ev ev' → ev'.Has lib w → ¬ ev'.Overflows lib)
    (hrun : ev.run lib depth = .value v ev.ctx) : v.Finite := by
  induction depth generalizing ev v with
  | zero => cases hrun
  | succ depth ih =>
    have hv : ev.Has lib v := h.yields_of_run hrun
    refine (h.finite_iff_of_calls hev hv fun ev' w hcalls hw => ?_).mpr (hno ev v .refl hv)
    rcases h.run_of_yields hw depth with hdeep | hvalue
    · rw [h.run_tooDeep_of_calls hcalls hdeep] at hrun
      cases hrun
    · exact ih (hev.of_calls hcalls) (fun ev'' w hreach => hno ev'' w (.head hcalls hreach)) hvalue

/-- An evaluation that has a value has a finite one if neither it nor any that it asks for overflows. -/
theorem finite_of_has {ev : Evaluation} {v : Expr} (hev : ev.Finite) (hv : ev.Has lib v)
    (hno : ∀ ev' w, ReflTransGen (Calls lib) ev ev' → ev'.Has lib w → ¬ ev'.Overflows lib) : v.Finite := by
  obtain ⟨depth, hdepth⟩ := hv
  exact h.finite_of_run hev hno (hdepth depth (Nat.le_refl depth))

end Library.Standard

theorem values_are_finite_iff {lib : Library} (h : lib.Standard) {ev : Evaluation} (hev : ev.Finite) :
    (∀ ev' v, ReflTransGen (Evaluation.Calls lib) ev ev' → ev'.Has lib v → v.Finite) ↔
      ∀ ev' v, ReflTransGen (Evaluation.Calls lib) ev ev' → ev'.Has lib v → ¬ ev'.Overflows lib := by
  constructor
  · intro hfinite ev' v hreach hv
    refine (h.finite_iff_of_calls (hev.of_reaches hreach) hv fun ev'' w hcalls hw => ?_).mp
      (hfinite ev' v hreach hv)
    exact hfinite ev'' w (hreach.tail hcalls) hw
  · intro hno ev' v hreach hv
    refine h.finite_of_has (hev.of_reaches hreach) hv fun ev'' w hreach' => ?_
    exact hno ev'' w (hreach.trans hreach')

/-- Two colors with alphas that are finite and far out of their range. -/
theorem values_are_finite_iff_of_layers :
    let layer (alpha : Float) : Expr := .atom (.color ⟨0, 0, 0, alpha⟩) .nowhere
    let far : Float := .ofScientific 1 false 200
    let ev : Evaluation := ⟨.operation (layer far) .add (layer (-far)) .nowhere, {}⟩
    ev.Finite ∧
      ¬ ∀ ev' v, ReflTransGen (Evaluation.Calls .builtin) ev ev' → ev'.Has .builtin v → v.Finite := by
  intro layer far ev
  have hev : ev.Finite := ⟨by decide +kernel, nofun⟩
  refine ⟨hev, fun hfinite => ?_⟩
  have hvalue (x : Float) : (layer x).Yields .builtin {} (.ok (layer x)) :=
    ⟨1, fun | _ + 1, _ => rfl⟩
  have hoverflow : (layer far).AlphaOverflows (layer (-far)) := by
    change ¬ (far * (1 - -far) + -far).isFinite = true
    decide +kernel
  have htest : (match ev.run .builtin 2 with | .value _ _ => true | _ => false) = true := by decide +kernel
  obtain ⟨v, hv, -⟩ := Library.Standard.exists_has (.inr rfl) htest
  exact (values_are_finite_iff (.inr rfl) hev).mp hfinite ev v .refl hv
    (.alpha (hvalue _) (hvalue _) hoverflow)

/-- The largest percentage as a channel. -/
theorem finite_values_fail_for_percentage :
    let number (x : Float) (unit : Option String) : Expr := .atom (.number ⟨x, unit⟩) .nowhere
    let largest : Float := .ofBits 0x7fefffffffffffff
    let args : List Expr := [number largest (some "%"), number 0 none, number 0 none]
    let ev : Evaluation := ⟨.call ⟨"rgb", .nowhere⟩ args .nowhere, {}⟩
    ev.Finite ∧ ∃ v, ev.Has .builtin v ∧ ¬ v.Finite := by
  intro number largest args ev
  have htest : (match ev.run .builtin 2 with | .value v _ => decide (¬ v.Finite) | _ => false) = true := by
    decide +kernel
  obtain ⟨v, hv, hfinite⟩ := Library.Standard.exists_has (.inr rfl) htest
  exact ⟨⟨by decide +kernel, nofun⟩, v, hv, of_decide_eq_true hfinite⟩

end StyleValue
