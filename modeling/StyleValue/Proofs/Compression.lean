import StyleValue.Proofs.NestedCalls
import StyleValue.Proofs.TextRelations

/-!
Evaluation with and without compression. The switch is read where a call becomes text. The two texts of a call
may come to stand in strings and units, and from there the switch reaches an outcome in one way alone: `min` and
`max` compare units, and the two texts may agree with a third one in one mode and not in the other.
-/

set_option autoImplicit false

namespace StyleValue

variable {α β γ δ : Type}

def Context.withCompression (ctx : Context) (on : Bool) : Context :=
  { ctx with options := { ctx.options with compress := on } }

/-- The same text, or the texts of one call under either options. The values in it may have come apart in the
same way before. -/
inductive Reprinted (opts opts' : Options) : String → String → Prop
  | same (text : String) : Reprinted opts opts' text text
  | call (site : Site) {values values' : List Expr}
      (h : List.Forall₂ (Expr.Alike (Reprinted opts opts')) values values') :
      Reprinted opts opts' (Invocation.css opts ⟨site, values⟩) (Invocation.css opts' ⟨site, values'⟩)

theorem Invocation.paren_mem_css (opts : Options) (inv : Invocation) : '(' ∈ (inv.css opts).toList := by
  simp [css]

/-- The text of a call is neither of the two texts that are special as units. -/
theorem Reprinted.keepsUnits (opts opts' : Options) : KeepsUnits (Reprinted opts opts') := by
  have hcall {word : String} (hword : '(' ∉ word.toList) {text text' : String}
      (h : Reprinted opts opts' text text') : text = word ↔ text' = word := by
    cases h with
    | same => exact .rfl
    | call site h =>
      refine iff_of_false ?_ ?_
      · rintro rfl
        exact hword (Invocation.paren_mem_css opts _)
      · rintro rfl
        exact hword (Invocation.paren_mem_css opts' _)
  exact ⟨.same, hcall (by decide), hcall (by decide)⟩

def Outcome.Alike (T : String → String → Prop) (X X' : Fault → Prop) (R : α → β → Prop) (o : Outcome α)
    (o' : Outcome β) : Prop :=
  ∀ r r', o.result? = some r → o'.result? = some r' → ResultsAlike T X X' R r r'

variable {T : String → String → Prop} {X X' : Fault → Prop} {R : α → β → Prop} {S : γ → δ → Prop}

theorem Outcome.alike_ofResult {r : Except Fault α} {r' : Except Fault β} (h : ResultsAlike T X X' R r r')
    (ctx ctx' : Context) : (ofResult r ctx).Alike T X X' R (ofResult r' ctx') := by
  intro q q' hq hq'
  rw [result?_ofResult] at hq hq'
  cases hq
  cases hq'
  exact h

theorem Outcome.Alike.widen {o : Outcome α} {o' : Outcome β} {Y Y' : Fault → Prop} (h : o.Alike T X X' R o')
    (hX : ∀ f, X f → Y f) (hX' : ∀ f, X' f → Y' f) : o.Alike T Y Y' R o' :=
  fun r r' hr hr' => (h r r' hr hr').widen hX hX'

namespace Eval

variable {ctx ctx' : Context}

theorem result_bind {m : Eval α} {f : α → Eval γ} (hm : m.Restores) (ctx : Context) :
    ((m >>= f).run ctx).result? = (m.run ctx).result?.bind fun
      | .ok a => ((f a).run ctx).result?
      | .error e => some (.error e) := by
  rw [run_bind]
  cases hv : m.run ctx with
  | value a after =>
    obtain rfl := hm.value hv
    rfl
  | fault e after => rfl
  | tooDeep => rfl

theorem alike_bind {m : Eval α} {m' : Eval β} {f : α → Eval γ} {f' : β → Eval δ} (hm : m.Restores)
    (hm' : m'.Restores) (h : (m.run ctx).Alike T X X' R (m'.run ctx'))
    (hf : ∀ a b, R a b → m.run ctx = .value a ctx → m'.run ctx' = .value b ctx' →
      ((f a).run ctx).Alike T X X' S ((f' b).run ctx')) :
    ((m >>= f).run ctx).Alike T X X' S ((m' >>= f').run ctx') := by
  intro r r' hr hr'
  rw [result_bind hm] at hr
  rw [result_bind hm'] at hr'
  obtain ⟨q, hq, hr⟩ := Option.bind_eq_some_iff.mp hr
  obtain ⟨q', hq', hr'⟩ := Option.bind_eq_some_iff.mp hr'
  cases h q q' hq hq' with
  | ok hab => exact hf _ _ hab (hm.run_eq hq) (hm'.run_eq hq') r r' hr hr'
  | error hfault =>
    cases hr
    cases hr'
    exact .error hfault
  | left hexempt q' =>
    cases hr
    exact .left hexempt r'
  | right q hexempt =>
    cases hr'
    exact .right r hexempt

theorem alike_mapM {g : γ → Eval α} {g' : γ → Eval β} (hg : ∀ c, (g c).Restores) (hg' : ∀ c, (g' c).Restores)
    {cs : List γ} (h : ∀ before c after, cs = before ++ c :: after →
      (∀ y ∈ before, ∃ a, (g y).run ctx = .value a ctx) → (∀ y ∈ before, ∃ b, (g' y).run ctx' = .value b ctx') →
      ((g c).run ctx).Alike T X X' R ((g' c).run ctx')) :
    ((cs.mapM g).run ctx).Alike T X X' (List.Forall₂ R) ((cs.mapM g').run ctx') := by
  induction cs with
  | nil =>
    have hnil : ResultsAlike T X X' (List.Forall₂ R) (.ok []) (.ok []) := .ok .nil
    exact Outcome.alike_ofResult hnil ctx ctx'
  | cons c cs ih =>
    rw [List.mapM_cons, List.mapM_cons]
    refine alike_bind (hg c) (hg' c) (h [] c cs rfl nofun nofun) fun a b hab ha hb => ?_
    refine alike_bind (.mapM hg cs) (.mapM hg' cs) (ih fun before x after hcs hbefore hbefore' => ?_) ?_
    · exact h (c :: before) x after (congrArg (c :: ·) hcs) (List.forall_mem_cons.mpr ⟨⟨a, ha⟩, hbefore⟩)
        (List.forall_mem_cons.mpr ⟨⟨b, hb⟩, hbefore'⟩)
    · intro as bs hall _ _
      exact Outcome.alike_ofResult (.ok (.cons hab hall)) ctx ctx'

variable {eval eval' : Expr → Eval Expr}

theorem alike_resolve {name : String} (hpending : ctx'.pending = ctx.pending)
    (hscopes : ctx'.scopes = ctx.scopes) (hvalue : ∀ value, name ∉ ctx.pending → ctx.scopes.lookup name = some value →
      ((eval value).run (ctx.pend name)).Alike T X X' (Expr.Alike T) ((eval' value).run (ctx'.pend name)))
    (s : Span) :
    ((resolve eval name s).run ctx).Alike T X X' (Expr.Alike T) ((resolve eval' name s).run ctx') := by
  by_cases hp : name ∈ ctx.pending
  · rw [run_resolve_pending hp, run_resolve_pending (hpending ▸ hp)]
    exact Outcome.alike_ofResult (.error (.refl T _)) ctx ctx'
  · have hp' : name ∉ ctx'.pending := hpending ▸ hp
    cases hv : ctx.scopes.lookup name with
    | none =>
      rw [run_resolve_unbound hp hv, run_resolve_unbound hp' (hscopes ▸ hv)]
      exact Outcome.alike_ofResult (.error (.refl T _)) ctx ctx'
    | some value =>
      intro r r' hr hr'
      rw [result_resolve_bound hp hv] at hr
      rw [result_resolve_bound hp' (hscopes ▸ hv)] at hr'
      obtain ⟨q, hq, rfl⟩ := Option.map_eq_some_iff.mp hr
      obtain ⟨q', hq', rfl⟩ := Option.map_eq_some_iff.mp hr'
      exact (hvalue value hp hv q q' hq hq').map fun v v' hv => hv.relocate s

end Eval

/-- Evaluations under either setting ask for the same expressions down to a call. Under the first setting its
function fails over the units of two arguments, and under the second these have one unit. -/
inductive Fault.PartsUnits (T : String → String → Prop) (lib : Library) (on on' : Bool) (f : Fault) :
    Expr → Context → Prop
  | call {site : Site} {args values values' : List Expr} {s : Span} {ctx : Context}
      (hvalues : List.Forall₂ (fun x v => x.Yields lib (ctx.withCompression on) (.ok v))
        ((Expr.call site args s).operands ctx.options.strictMath) values)
      (hvalues' : List.Forall₂ (fun x v => x.Yields lib (ctx.withCompression on') (.ok v))
        ((Expr.call site args s).operands ctx.options.strictMath) values')
      (hclash : f.Clashes T ⟨site, values⟩ ⟨site, values'⟩) : PartsUnits T lib on on' f (.call site args s) ctx
  | within {e x : Expr} {ctx inner : Context}
      (hcalls : Evaluation.Calls lib ⟨e, ctx.withCompression on⟩ ⟨x, inner.withCompression on⟩)
      (hcalls' : Evaluation.Calls lib ⟨e, ctx.withCompression on'⟩ ⟨x, inner.withCompression on'⟩)
      (hwithin : PartsUnits T lib on on' f x inner) : PartsUnits T lib on on' f e ctx

def Context.Reprints (ctx : Context) (on on' : Bool) : String → String → Prop :=
  Reprinted (ctx.withCompression on).options (ctx.withCompression on').options

/-- The results are alike, unless units part on the way in one of the two evaluations of the expression. -/
def Outcome.AlikeWithin (T : String → String → Prop) (lib : Library) (on on' : Bool) (e : Expr)
    (ctx : Context) (R : α → β → Prop) : Outcome α → Outcome β → Prop :=
  Outcome.Alike T (Fault.PartsUnits T lib on on' · e ctx) (Fault.PartsUnits (flip T) lib on' on · e ctx) R

theorem Outcome.AlikeWithin.within {lib : Library} {on on' : Bool} {e x : Expr} {ctx inner : Context}
    {o : Outcome α} {o' : Outcome β} (h : AlikeWithin T lib on on' x inner R o o')
    (hcalls : Evaluation.Calls lib ⟨e, ctx.withCompression on⟩ ⟨x, inner.withCompression on⟩)
    (hcalls' : Evaluation.Calls lib ⟨e, ctx.withCompression on'⟩ ⟨x, inner.withCompression on'⟩) :
    AlikeWithin T lib on on' e ctx R o o' :=
  Outcome.Alike.widen h (fun _ => .within hcalls hcalls') fun _ => .within hcalls' hcalls

theorem Fault.PartsUnits.exists_cause {lib : Library} {on on' : Bool} {f : Fault} {e : Expr} {ctx : Context}
    (h : f.PartsUnits T lib on on' e ctx) : ∃ function left right, f.cause = .unitClash function left right := by
  induction h with
  | call _ _ hclash =>
    obtain ⟨left, right, unit, rfl, -⟩ := hclash
    exact ⟨_, left, right, rfl⟩
  | within _ _ _ ih => exact ih

namespace Library.Standard

variable {lib : Library} (h : lib.Standard) {eval eval' : Expr → Eval Expr} {ctx ctx' : Context}
include h

theorem alike_dispatch (site : Site) {values values' : List Expr}
    (hvalues : List.Forall₂ (Expr.Alike (Reprinted ctx.options ctx'.options)) values values') :
    ((Eval.dispatch lib eval ⟨site, values⟩).run ctx).Alike (Reprinted ctx.options ctx'.options)
      (Fault.Clashes (Reprinted ctx.options ctx'.options) ⟨site, values⟩ ⟨site, values'⟩)
      (Fault.Clashes (flip (Reprinted ctx.options ctx'.options)) ⟨site, values'⟩ ⟨site, values⟩)
      (Expr.Alike (Reprinted ctx.options ctx'.options))
      ((Eval.dispatch lib eval' ⟨site, values'⟩).run ctx') := by
  have hkeeps := Reprinted.keepsUnits ctx.options ctx'.options
  cases hf : lib.find? site.name with
  | none =>
    rw [Eval.run_dispatch_unknown ⟨site, values⟩ hf, Eval.run_dispatch_unknown ⟨site, values'⟩ hf]
    exact Outcome.alike_ofResult (.ok (.atom (.text (.call site hvalues)) site.span)) ctx ctx'
  | some f =>
    obtain ⟨b, rfl⟩ := h.eq_ofPure hf
    rw [Eval.dispatch_known ⟨site, values⟩ hf, Eval.dispatch_known ⟨site, values'⟩ hf]
    have hanswer := Outcome.alike_ofResult (b.apply_alike hkeeps site hvalues) ctx ctx'
    rw [← Eval.run_ofExcept, ← Eval.run_ofExcept] at hanswer
    refine Eval.alike_bind (Eval.restores_ofExcept _) (Eval.restores_ofExcept _) hanswer fun v v' hv _ _ => ?_
    exact Outcome.alike_ofResult (.ok (hv.relocate site.span)) ctx ctx'

theorem alike_finish {e : Expr} (he : e.isReference = false) {values values' : List Expr}
    (hvalues : List.Forall₂ (Expr.Alike (Reprinted ctx.options ctx'.options)) values values')
    {X X' : Fault → Prop}
    (hX : ∀ site args s f, e = .call site args s →
      f.Clashes (Reprinted ctx.options ctx'.options) ⟨site, values⟩ ⟨site, values'⟩ → X f)
    (hX' : ∀ site args s f, e = .call site args s →
      f.Clashes (flip (Reprinted ctx.options ctx'.options)) ⟨site, values'⟩ ⟨site, values⟩ → X' f) :
    ((e.finish lib eval values).run ctx).Alike (Reprinted ctx.options ctx'.options) X X'
      (Expr.Alike (Reprinted ctx.options ctx'.options)) ((e.finish lib eval' values').run ctx') := by
  have hkeeps := Reprinted.keepsUnits ctx.options ctx'.options
  cases e with
  | reference name s => cases he
  | atom v s => exact Outcome.alike_ofResult (.ok (.atom (.refl hkeeps v) s)) ctx ctx'
  | deferred l op r s => exact Outcome.alike_ofResult (.ok (.deferred l op r s)) ctx ctx'
  | list items s => exact Outcome.alike_ofResult (.ok (.list hvalues s)) ctx ctx'
  | call site args s =>
    exact (h.alike_dispatch site hvalues).widen (fun f => hX site args s f rfl) fun f => hX' site args s f rfl
  | operation l op r s =>
    match values, values', hvalues with
    | [a, b], [a', b'], .cons ha (.cons hb .nil) =>
      rw [Expr.finish, Expr.finish]
      rcases ha.combine hkeeps hb op with ⟨v, v', hv, hv', halike⟩ | ⟨cause, hc, hc'⟩
      · rw [hv, hv']
        exact Outcome.alike_ofResult (.ok (.atom halike s)) ctx ctx'
      · rw [hc, hc']
        exact Outcome.alike_ofResult (.error (.refl _ _)) ctx ctx'
    | [], [], .nil => exact Outcome.alike_ofResult (.ok (.list .nil s)) ctx ctx'
    | [_], [_], .cons _ .nil => exact Outcome.alike_ofResult (.ok (.list .nil s)) ctx ctx'
    | _ :: _ :: _ :: _, _ :: _ :: _ :: _, .cons _ (.cons _ (.cons _ _)) =>
      exact Outcome.alike_ofResult (.ok (.list .nil s)) ctx ctx'

theorem forall₂_yields_of_mapM {depth : Nat} {xs values : List Expr} {ctx after : Context}
    (hrun : (xs.mapM (Expr.evaluate lib depth)).run ctx = .value values after) :
    List.Forall₂ (fun x v => x.Yields lib ctx (.ok v)) xs values :=
  (Eval.forall₂_of_mapM (h.restores_evaluate depth) hrun).imp fun _ _ => h.yields_of_run

theorem alike_evaluate (on on' : Bool) (depth : Nat) (e : Expr) (ctx : Context) :
    Outcome.AlikeWithin (ctx.Reprints on on') lib on on' e ctx (Expr.Alike (ctx.Reprints on on'))
      ((e.evaluate lib depth).run (ctx.withCompression on))
      ((e.evaluate lib depth).run (ctx.withCompression on')) := by
  induction depth generalizing e ctx with
  | zero =>
    intro r r' hr
    cases hr
  | succ depth ih =>
    have heval := h.restores_evaluate depth
    cases href : e.isReference with
    | true =>
      obtain ⟨name, s, rfl⟩ := Expr.eq_reference href
      have hpending : (ctx.withCompression on').pending = (ctx.withCompression on).pending := rfl
      refine Eval.alike_resolve hpending rfl (fun value hp hv => ?_) s
      have hcalls (on : Bool) : Evaluation.Calls lib ⟨.reference name s, ctx.withCompression on⟩
          ⟨value, (ctx.pend name).withCompression on⟩ := .value hp hv
      exact (ih value (ctx.pend name)).within (hcalls on) (hcalls on')
    | false =>
      let operands := (e.operands ctx.options.strictMath).mapM (Expr.evaluate lib depth)
      have hoperands : Outcome.AlikeWithin (ctx.Reprints on on') lib on on' e ctx
          (List.Forall₂ (Expr.Alike (ctx.Reprints on on'))) (operands.run (ctx.withCompression on))
          (operands.run (ctx.withCompression on')) := by
        -- The next operand is asked for only where those before it have values under both settings.
        refine Eval.alike_mapM heval heval fun before x after hsplit hbefore hbefore' => ?_
        have hcalls : Evaluation.Calls lib ⟨e, ctx.withCompression on⟩ ⟨x, ctx.withCompression on⟩ :=
          .operand before after hsplit fun y hy => (hbefore y hy).imp fun _ => h.yields_of_run
        have hcalls' : Evaluation.Calls lib ⟨e, ctx.withCompression on'⟩ ⟨x, ctx.withCompression on'⟩ :=
          .operand before after hsplit fun y hy => (hbefore' y hy).imp fun _ => h.yields_of_run
        exact (ih x ctx).within hcalls hcalls'
      change ((e.step lib _).run _).Alike _ _ _ _ ((e.step lib _).run _)
      rw [Expr.step_of_operands lib _ href, Expr.step_of_operands lib _ href]
      refine Eval.alike_bind (.mapM heval _) (.mapM heval _) hoperands ?_
      intro values values' hvalues hrun hrun'
      have hyields := h.forall₂_yields_of_mapM hrun
      have hyields' := h.forall₂_yields_of_mapM hrun'
      refine h.alike_finish href hvalues ?_ ?_
      · rintro site args s f rfl hclash
        exact .call hyields hyields' hclash
      · rintro site args s f rfl hclash
        exact .call hyields' hyields hclash

end Library.Standard

theorem not_unitClash_of_empty {e : Expr} {ctx after : Context} {f : Fault} {depth : Nat}
    (hrun : (e.evaluate .empty depth).run ctx = .fault f after) (function left right : String) :
    f.cause ≠ .unitClash function left right := by
  have h : Library.empty.Standard := .inl rfl
  induction depth generalizing e ctx after with
  | zero => cases hrun
  | succ depth ih =>
    cases h.breaks_of_step (h.restores_evaluate depth) hrun with
    | cyclic _ => nofun
    | undefined _ => nofun
    | value _ hf => exact ih hf
    | operand _ hf => exact ih hf
    | answer _ hb _ => cases hb
    | @operation l r a b op s cause _ _ hcause =>
      intro hclash
      have harith := a.combine_fails op b cause hcause
      rw [show cause = .unitClash function left right from hclash] at harith
      exact harith

theorem Library.Standard.eq_builtin_of_partsUnits {lib : Library} (h : lib.Standard) {e : Expr} {ctx : Context}
    {f : Fault} {depth : Nat} {on on' : Bool} {e' : Expr} {ctx' : Context}
    (hparts : f.PartsUnits T lib on on' e' ctx')
    (hf : ((e.evaluate lib depth).run ctx).result? = some (.error f)) : lib = .builtin := by
  refine h.resolve_left fun hempty => ?_
  subst hempty
  obtain ⟨after, hrun⟩ := Outcome.exists_fault hf
  obtain ⟨function, left, right, hcause⟩ := hparts.exists_cause
  exact not_unitClash_of_empty hrun function left right hcause

theorem compression_changes_texts_alone {lib : Library} (h : lib.Standard) (e : Expr) (ctx : Context) :
    let T := ctx.Reprints true false
    ∃ r r', e.Yields lib (ctx.withCompression true) r ∧ e.Yields lib (ctx.withCompression false) r' ∧
      ((∃ v v', r = .ok v ∧ r' = .ok v' ∧ v.Alike T v') ∨
        (∃ f f', r = .error f ∧ r' = .error f' ∧ f.Alike T f') ∨
        lib = .builtin ∧ ((∃ f, r = .error f ∧ f.PartsUnits T lib true false e ctx) ∨
          ∃ f', r' = .error f' ∧ f'.PartsUnits (flip T) lib false true e ctx)) := by
  intro T
  obtain ⟨r, hr⟩ := h.exists_yields e (ctx.withCompression true)
  obtain ⟨r', hr'⟩ := h.exists_yields e (ctx.withCompression false)
  refine ⟨r, r', hr, hr', ?_⟩
  obtain ⟨depth, hres⟩ := hr.exists_result
  obtain ⟨depth', hres'⟩ := hr'.exists_result
  have halike := h.alike_evaluate true false (max depth depth') e ctx r r'
    (h.result_mono (Nat.le_max_left depth depth') hres) (h.result_mono (Nat.le_max_right depth depth') hres')
  cases halike with
  | ok hv => exact .inl ⟨_, _, rfl, rfl, hv⟩
  | error hf => exact .inr (.inl ⟨_, _, rfl, rfl, hf⟩)
  | left hparts r' => exact .inr (.inr ⟨h.eq_builtin_of_partsUnits hparts hres, .inl ⟨_, rfl, hparts⟩⟩)
  | right r hparts => exact .inr (.inr ⟨h.eq_builtin_of_partsUnits hparts hres', .inr ⟨_, rfl, hparts⟩⟩)

/-- The text of an unknown call as a unit. -/
theorem compression_changes_texts_alone_of_unit :
    let word (w : String) : Expr := .atom (.keyword w) .nowhere
    let e : Expr := .call ⟨"unit", .nowhere⟩ [.atom (.number ⟨2, none⟩) .nowhere,
      .call ⟨"f", .nowhere⟩ [word "a", word "b"] .nowhere] .nowhere
    ∃ v v', e.Yields .builtin { options := ⟨false, true⟩ } (.ok v) ∧
      e.Yields .builtin { options := ⟨false, false⟩ } (.ok v') ∧
      v.number?.bind Number.unit = some "f(a,b)" ∧ v'.number?.bind Number.unit = some "f(a, b)" ∧
      v.Alike (Reprinted ⟨false, true⟩ ⟨false, false⟩) v' := by
  intro word e
  let hasUnit (unit : String) (v : Expr) : Bool := v.number?.bind Number.unit == some unit
  have htest : (((e.evaluate .builtin 3).run { options := ⟨false, true⟩ }).result?.bind Except.toOption).any
      (hasUnit "f(a,b)") = true := by
    decide +kernel
  have htest' : (((e.evaluate .builtin 3).run { options := ⟨false, false⟩ }).result?.bind Except.toOption).any
      (hasUnit "f(a, b)") = true := by
    decide +kernel
  obtain ⟨v, hq, hv⟩ := Library.Standard.exists_value_of_test (.inr rfl) htest
  obtain ⟨v', hq', hv'⟩ := Library.Standard.exists_value_of_test (.inr rfl) htest'
  obtain ⟨r, r', hr, hr', hsame⟩ := compression_changes_texts_alone (.inr rfl) e {}
  obtain rfl := hq.unique hr
  obtain rfl := hq'.unique hr'
  rcases hsame with ⟨w, w', hw, hw', halike⟩ | ⟨f, f', hf, -⟩ | ⟨-, ⟨f, hf, -⟩ | ⟨f', hf', -⟩⟩
  · cases hw
    cases hw'
    exact ⟨v, v', hq, hq', eq_of_beq hv, eq_of_beq hv', halike⟩
  · cases hf
  · cases hf
  · cases hf'

/-- Two units that are the same text without compression, and that compression tells apart. -/
theorem compression_decides_whether_units_clash :
    let word (w : String) : Expr := .atom (.keyword w) .nowhere
    let call (name : String) (args : List Expr) : Expr := .call ⟨name, .nowhere⟩ args .nowhere
    let one : Expr := .atom (.number ⟨1, none⟩) .nowhere
    let e : Expr := call "unit" [call "min" [call "unit" [one, call "f" [word "a", word "b"]],
      call "unit" [one, .atom (.quoted { value := "f(a, b)" }) .nowhere]]]
    ∃ v f, e.Yields .builtin { options := ⟨false, false⟩ } (.ok v) ∧ v.number?.map Number.unit = some none ∧
      e.Yields .builtin { options := ⟨false, true⟩ } (.error f) ∧
      f.cause = .unitClash "min" "f(a,b)" "f(a, b)" := by
  intro word call one e
  have hvalue : (((e.evaluate .builtin 5).run { options := ⟨false, false⟩ }).result?.bind Except.toOption).any
      (fun v => v.number?.map Number.unit == some none) = true := by
    decide +kernel
  have hfault : ((e.evaluate .builtin 5).run { options := ⟨false, true⟩ }).result?.bind Fault.causeOf? =
      some (.unitClash "min" "f(a,b)" "f(a, b)") := by
    decide +kernel
  obtain ⟨v, hv, hunit⟩ := Library.Standard.exists_value_of_test (.inr rfl) hvalue
  obtain ⟨f, hf, hcause⟩ := Library.Standard.exists_fault_of_cause (.inr rfl) hfault
  exact ⟨v, f, hv, eq_of_beq hunit, hf, hcause⟩

end StyleValue
