import StyleValue.Proofs.DepthBounds

/-!
Evaluation copies spans and never looks at them: any map of spans, applied to an expression and to the values
of the variables, is thereby applied to the result. With the map that sends every span to one place,
expressions that agree up to spans have results that agree up to spans.
-/

set_option autoImplicit false

namespace StyleValue

variable {α β γ : Type} {σ : Span → Span}

def Site.mapSpan (σ : Span → Span) (site : Site) : Site := { site with span := σ site.span }

def Fault.mapSpan (σ : Span → Span) (f : Fault) : Fault := { f with span := f.span.map σ }

namespace Expr

mutual

/-- Every span, that of a site included, replaced by its image. -/
def mapSpans (σ : Span → Span) : Expr → Expr
  | .atom v s => .atom v (σ s)
  | .reference name s => .reference name (σ s)
  | .operation l op r s => .operation (l.mapSpans σ) op (r.mapSpans σ) (σ s)
  | .deferred l op r s => .deferred (l.mapSpans σ) op (r.mapSpans σ) (σ s)
  | .call site args s => .call (site.mapSpan σ) (mapSpansEach σ args) (σ s)
  | .list items s => .list (mapSpansEach σ items) (σ s)

def mapSpansEach (σ : Span → Span) : List Expr → List Expr
  | [] => []
  | e :: es => e.mapSpans σ :: mapSpansEach σ es

end

theorem mapSpansEach_eq_map (σ : Span → Span) (es : List Expr) :
    mapSpansEach σ es = es.map (mapSpans σ) := by
  induction es with
  | nil => rfl
  | cons e es ih => rw [mapSpansEach, ih, List.map_cons]

@[simp] theorem span_mapSpans (σ : Span → Span) (e : Expr) : (e.mapSpans σ).span = σ e.span := by
  cases e <;> rfl

@[simp] theorem mapSpans_relocate (σ : Span → Span) (s : Span) (e : Expr) :
    (e.relocate s).mapSpans σ = (e.mapSpans σ).relocate (σ s) := by
  cases e <;> rfl

@[simp] theorem kind_mapSpans (σ : Span → Span) (e : Expr) : (e.mapSpans σ).kind = e.kind := by
  cases e with
  | atom v s => cases v <;> rfl
  | _ => rfl

@[simp] theorem number?_mapSpans (σ : Span → Span) (e : Expr) : (e.mapSpans σ).number? = e.number? := by
  cases e with
  | atom v s => cases v <;> rfl
  | _ => rfl

@[simp] theorem color?_mapSpans (σ : Span → Span) (e : Expr) : (e.mapSpans σ).color? = e.color? := by
  cases e with
  | atom v s => cases v <;> rfl
  | _ => rfl

@[simp] theorem text?_mapSpans (σ : Span → Span) (e : Expr) : (e.mapSpans σ).text? = e.text? := by
  cases e with
  | atom v s => cases v <;> rfl
  | _ => rfl

theorem combine_mapSpans (σ : Span → Span) (l : Expr) (op : Operator) (r : Expr) :
    (l.mapSpans σ).combine op (r.mapSpans σ) = l.combine op r := by
  cases l with
  | atom v s =>
    cases r with
    | atom w t => cases v <;> cases w <;> rfl
    | _ => cases v <;> rfl
  | _ => exact congrArg (fun kind => Except.error (Cause.operands op _ kind)) (kind_mapSpans σ r)

theorem suppress_mapSpans (σ : Span → Span) (e : Expr) :
    (e.mapSpans σ).suppress = e.suppress.mapSpans σ := by
  induction e using byParts with
  | atom v s => rfl
  | reference name s => rfl
  | operation l op r s => rfl
  | deferred l op r s => rfl
  | call site args s ih =>
    rw [mapSpans, suppress_call, suppress_call, mapSpans, mapSpansEach_eq_map, mapSpansEach_eq_map,
      List.map_map, List.map_map]
    exact congrArg (Expr.call _ · _) (List.map_congr_left ih)
  | list items s ih =>
    rw [mapSpans, suppress_list, suppress_list, mapSpans, mapSpansEach_eq_map, mapSpansEach_eq_map,
      List.map_map, List.map_map]
    exact congrArg (Expr.list · _) (List.map_congr_left ih)

theorem cssEach_mapSpansEach {opts : Options} {es : List Expr}
    (h : ∀ e ∈ es, (e.mapSpans σ).css opts = e.css opts) :
    cssEach opts (mapSpansEach σ es) = cssEach opts es := by
  rw [cssEach_eq_map, cssEach_eq_map, mapSpansEach_eq_map, List.map_map]
  exact List.map_congr_left h

theorem css_mapSpans (opts : Options) (σ : Span → Span) (e : Expr) :
    (e.mapSpans σ).css opts = e.css opts := by
  induction e using byParts with
  | atom v s => rfl
  | reference name s => rfl
  | operation l op r s ihl ihr => rw [mapSpans, css, css, ihl, ihr]
  | deferred l op r s ihl ihr => rw [mapSpans, css, css, ihl, ihr]
  | call site args s ih => rw [mapSpans, css, css, cssEach_mapSpansEach ih, Site.mapSpan]
  | list items s ih => rw [mapSpans, css, css, cssEach_mapSpansEach ih]

theorem operands_mapSpans (strict : Bool) (σ : Span → Span) (e : Expr) :
    (e.mapSpans σ).operands strict = (e.operands strict).map (mapSpans σ) := by
  cases e with
  | atom v s => rfl
  | reference name s => rfl
  | operation l op r s => rfl
  | deferred l op r s => rfl
  | list items s => exact mapSpansEach_eq_map σ items
  | call site args s =>
    rw [mapSpans, operands, operands, mapSpansEach_eq_map]
    cases strict with
    | false => rfl
    | true =>
      rw [if_pos rfl, if_pos rfl, List.map_map, List.map_map]
      exact List.map_congr_left fun a _ => suppress_mapSpans σ a

end Expr

/-! The values of variables. -/

namespace Table

def mapValues (g : α → β) (t : Table α) : Table β where
  entries := t.entries.map fun entry => (entry.1, g entry.2)
  distinct := by
    rw [List.map_map]
    exact t.distinct

theorem find?_mapValues (g : α → β) (t : Table α) (name : String) :
    (t.mapValues g).find? name = (t.find? name).map g := by
  change (t.entries.map fun entry => (entry.1, g entry.2)).lookup name = (t.entries.lookup name).map g
  induction t.entries with
  | nil => rfl
  | cons entry rest ih =>
    rw [List.map_cons, List.lookup_cons, List.lookup_cons]
    cases name == entry.1
    · exact ih
    · rfl

end Table

def Scopes.mapSpans (σ : Span → Span) (s : Scopes) : Scopes where
  inner := s.inner.map (Table.mapValues (Expr.mapSpans σ))
  global := s.global.mapValues (Expr.mapSpans σ)

theorem Scopes.lookup_mapSpans (σ : Span → Span) (s : Scopes) (name : String) :
    (s.mapSpans σ).lookup name = (s.lookup name).map (Expr.mapSpans σ) := by
  rw [lookup, lookup, mapSpans, Table.find?_mapValues]
  have hinner : (s.inner.map (Table.mapValues (Expr.mapSpans σ))).findSome? (·.find? name) =
      (s.inner.findSome? (·.find? name)).map (Expr.mapSpans σ) := by
    induction s.inner with
    | nil => rfl
    | cons t rest ih =>
      rw [List.map_cons, List.findSome?_cons, List.findSome?_cons, Table.find?_mapValues, ih]
      cases t.find? name <;> rfl
  rw [hinner]
  cases s.inner.findSome? (·.find? name) <;> rfl

def Context.mapSpans (σ : Span → Span) (ctx : Context) : Context :=
  { ctx with scopes := ctx.scopes.mapSpans σ }

def Invocation.mapSpans (σ : Span → Span) (inv : Invocation) : Invocation where
  site := inv.site.mapSpan σ
  args := inv.args.map (Expr.mapSpans σ)

/-! Results of functions. -/

/-- `r'` is `r` with the value under `g` and the span of a failure under `σ`. -/
def Mapped (σ : Span → Span) (g : α → β) (r : Except Fault α) (r' : Except Fault β) : Prop :=
  match r with
  | .ok a => r' = .ok (g a)
  | .error f => r' = .error (f.mapSpan σ)

namespace Mapped

variable {g : α → β} {r : Except Fault α} {r' : Except Fault β}

theorem ok (σ : Span → Span) (g : α → β) (a : α) : Mapped σ g (.ok a) (.ok (g a)) := rfl

theorem bind {δ : Type} {k : α → Except Fault γ} {k' : β → Except Fault δ} {g' : γ → δ}
    (hr : Mapped σ g r r') (hk : ∀ a, Mapped σ g' (k a) (k' (g a))) :
    Mapped σ g' (r >>= k) (r' >>= k') := by
  cases r with
  | ok a =>
    cases hr
    exact hk a
  | error f =>
    cases hr
    rfl

theorem map {q : Except Fault α} (hr : Mapped σ id r q) (k : α → γ) :
    Mapped σ id (k <$> r) (k <$> q) := by
  cases r with
  | ok a =>
    cases hr
    rfl
  | error f =>
    cases hr
    rfl

theorem ite {c c' : Prop} [Decidable c] [Decidable c'] {q : Except Fault α} {q' : Except Fault β}
    (hc : c' ↔ c) (hr : Mapped σ g r r') (hq : Mapped σ g q q') :
    Mapped σ g (if c then r else q) (if c' then r' else q') := by
  by_cases h : c
  · rw [if_pos h, if_pos (hc.mpr h)]
    exact hr
  · rw [if_neg h, if_neg fun h' => h (hc.mp h')]
    exact hq

end Mapped

namespace Invocation

variable (σ) (inv : Invocation)

theorem length_mapSpans : (inv.mapSpans σ).args.length = inv.args.length := by
  rw [mapSpans, List.length_map]

theorem expect_mapped (arity : Arity) : Mapped σ id (inv.expect arity) ((inv.mapSpans σ).expect arity) := by
  rw [expect, expect, length_mapSpans]
  exact .ite .rfl rfl rfl

theorem read_mapped {expected : String} {view : Expr → Option α}
    (hview : ∀ e, view (e.mapSpans σ) = view e) (index : Nat) :
    Mapped σ id (inv.read expected view index) ((inv.mapSpans σ).read expected view index) := by
  have hget : (inv.mapSpans σ).args[index]? = inv.args[index]?.map (Expr.mapSpans σ) :=
    List.getElem?_map
  rw [read, read, hget]
  cases inv.args[index]? with
  | none => rfl
  | some e =>
    simp only [Option.map_some, Option.bind_some, hview]
    cases view e with
    | some a => rfl
    | none => simp [Mapped, mismatch, Fault.mapSpan, Cause.atSpan, name, mapSpans, Site.mapSpan]

theorem number_mapped (index : Nat) : Mapped σ id (inv.number index) ((inv.mapSpans σ).number index) :=
  inv.read_mapped σ (Expr.number?_mapSpans σ) index

theorem color_mapped (index : Nat) : Mapped σ id (inv.color index) ((inv.mapSpans σ).color index) :=
  inv.read_mapped σ (Expr.color?_mapSpans σ) index

theorem text_mapped (index : Nat) : Mapped σ id (inv.text index) ((inv.mapSpans σ).text index) :=
  inv.read_mapped σ (Expr.text?_mapSpans σ) index

theorem finite_mapped (x : Float) : Mapped σ id (inv.finite x) ((inv.mapSpans σ).finite x) :=
  .ite .rfl rfl rfl

end Invocation

namespace Library

variable (σ) (inv : Invocation)

theorem agree_mapped (seen other : Option String) :
    Mapped σ id (agree inv seen other) (agree (inv.mapSpans σ) seen other) := by
  cases seen with
  | none => rfl
  | some seen =>
    cases other with
    | none => rfl
    | some other => exact .ite .rfl rfl rfl

theorem chooseFrom_mapped (prefer : Float → Float → Bool) (count index : Nat) (best : Number)
    (unit : Option String) : Mapped σ id (chooseFrom inv prefer count index best unit)
      (chooseFrom (inv.mapSpans σ) prefer count index best unit) := by
  induction count generalizing index best unit with
  | zero => rfl
  | succ count ih =>
    rw [chooseFrom, chooseFrom]
    refine (inv.number_mapped σ index).bind fun candidate => ?_
    exact (agree_mapped σ inv unit candidate.unit).bind fun unit => ih _ _ unit

theorem channel_mapped (index : Nat) :
    Mapped σ id (channel inv index) (channel (inv.mapSpans σ) index) :=
  (inv.number_mapped σ index).bind fun _ => rfl

theorem alpha_mapped (index : Nat) : Mapped σ id (alpha inv index) (alpha (inv.mapSpans σ) index) :=
  (inv.number_mapped σ index).bind fun _ => rfl

theorem mapNumber_mapped (g : Float → Float) :
    Mapped σ (Expr.mapSpans σ) (mapNumber g inv) (mapNumber g (inv.mapSpans σ)) :=
  (inv.expect_mapped σ _).bind fun _ => (inv.number_mapped σ 0).bind fun n =>
    (inv.finite_mapped σ (g n.value)).bind fun _ => rfl

theorem choose_mapped (prefer : Float → Float → Bool) :
    Mapped σ (Expr.mapSpans σ) (choose prefer inv) (choose prefer (inv.mapSpans σ)) := by
  refine (inv.expect_mapped σ _).bind fun _ => (inv.number_mapped σ 0).bind fun n => ?_
  rw [inv.length_mapSpans]
  exact (chooseFrom_mapped σ inv prefer _ _ n n.unit).bind fun _ => rfl

end Library

theorem Builtin.apply_mapped (σ : Span → Span) (b : Builtin) (inv : Invocation) :
    Mapped σ (Expr.mapSpans σ) (b.apply inv) (b.apply (inv.mapSpans σ)) := by
  have hlen : (inv.mapSpans σ).args.length = 2 ↔ inv.args.length = 2 := by rw [inv.length_mapSpans]
  cases b with
  | percentage =>
    exact (inv.expect_mapped σ _).bind fun _ => (inv.number_mapped σ 0).bind fun n =>
      (inv.finite_mapped σ _).bind fun _ => rfl
  | round =>
    refine (inv.expect_mapped σ _).bind fun _ => (inv.number_mapped σ 0).bind fun n => ?_
    refine .ite hlen (((inv.number_mapped σ 1).map _).bind fun places => ?_)
      (Mapped.bind (.ok σ id 0) fun places => ?_)
    all_goals exact (inv.finite_mapped σ _).bind fun _ => rfl
  | ceil | floor | abs | sqrt => exact Library.mapNumber_mapped σ inv _
  | min | max => exact Library.choose_mapped σ inv _
  | unit =>
    refine (inv.expect_mapped σ _).bind fun _ => (inv.number_mapped σ 0).bind fun n => ?_
    exact .ite hlen (((inv.text_mapped σ 1).map _).bind fun _ => rfl)
      (Mapped.bind (.ok σ id none) fun _ => rfl)
  | rgb =>
    exact (inv.expect_mapped σ _).bind fun _ => (Library.channel_mapped σ inv 0).bind fun _ =>
      (Library.channel_mapped σ inv 1).bind fun _ => (Library.channel_mapped σ inv 2).bind fun _ => rfl
  | rgba =>
    refine (inv.expect_mapped σ _).bind fun _ => .ite hlen ?_ ?_
    · exact (inv.color_mapped σ 0).bind fun _ => (Library.alpha_mapped σ inv 1).bind fun _ => rfl
    · exact (Library.channel_mapped σ inv 0).bind fun _ => (Library.channel_mapped σ inv 1).bind fun _ =>
        (Library.channel_mapped σ inv 2).bind fun _ => (Library.alpha_mapped σ inv 3).bind fun _ => rfl
  | e => exact (inv.expect_mapped σ _).bind fun _ => (inv.text_mapped σ 0).bind fun _ => rfl

/-! Steps and evaluation. -/

def Outcome.mapSpans (σ : Span → Span) (g : α → β) : Outcome α → Outcome β
  | value a ctx => .value (g a) (ctx.mapSpans σ)
  | fault f ctx => .fault (f.mapSpan σ) (ctx.mapSpans σ)
  | tooDeep => .tooDeep

namespace Eval

/-- `m'` does with mapped values of the variables what `m` does with the values as they are. -/
def Mapped (σ : Span → Span) (g : α → β) (m : Eval α) (m' : Eval β) : Prop :=
  ∀ ctx, m'.run (ctx.mapSpans σ) = (m.run ctx).mapSpans σ g

variable {m : Eval α} {m' : Eval β} {g : α → β}

theorem mapped_pure (σ : Span → Span) (g : α → β) (a : α) : Mapped σ g (pure a) (pure (g a)) :=
  fun _ => rfl

theorem mapped_fail (σ : Span → Span) (g : α → β) (f : Fault) :
    Mapped σ g (fail f) (fail (f.mapSpan σ)) :=
  fun _ => rfl

theorem mapped_ofExcept {r : Except Fault α} {r' : Except Fault β} (h : StyleValue.Mapped σ g r r') :
    Mapped σ g (ofExcept r) (ofExcept r') := by
  cases r <;> cases h <;> exact fun _ => rfl

theorem Mapped.bind {δ : Type} {k : α → Eval γ} {k' : β → Eval δ} {g' : γ → δ} (hm : Mapped σ g m m')
    (hk : ∀ a, Mapped σ g' (k a) (k' (g a))) : Mapped σ g' (m >>= k) (m' >>= k') := by
  intro ctx
  rw [run_bind, run_bind, hm ctx]
  cases m.run ctx with
  | value a after => exact hk a after
  | fault f after => rfl
  | tooDeep => rfl

theorem Mapped.between {before after : Context → Context} (hm : Mapped σ g m m')
    (hbefore : ∀ ctx : Context, before (ctx.mapSpans σ) = (before ctx).mapSpans σ)
    (hafter : ∀ ctx : Context, after (ctx.mapSpans σ) = (after ctx).mapSpans σ) :
    Mapped σ g (between before after m) (between before after m') := by
  intro ctx
  rw [run_between, run_between, hbefore, hm]
  cases m.run (before ctx) with
  | value a c => exact congrArg (Outcome.value (g a)) (hafter c)
  | fault f c => exact congrArg (Outcome.fault (f.mapSpan σ)) (hafter c)
  | tooDeep => rfl

theorem mapped_mapM {δ : Type} {step : α → Eval γ} {step' : β → Eval δ} {g' : γ → δ}
    (h : ∀ a, Mapped σ g' (step a) (step' (g a))) (as : List α) :
    Mapped σ (List.map g') (as.mapM step) ((as.map g).mapM step') := by
  induction as with
  | nil => exact fun _ => rfl
  | cons a as ih =>
    rw [List.map_cons, List.mapM_cons, List.mapM_cons]
    exact (h a).bind fun b => ih.bind fun bs => mapped_pure σ _ (b :: bs)

variable {eval eval' : Expr → Eval Expr}

theorem mapped_resolve
    (h : ∀ e : Expr, Mapped σ (Expr.mapSpans σ) (eval e) (eval' (e.mapSpans σ))) (name : String)
    (s : Span) : Mapped σ (Expr.mapSpans σ) (resolve eval name s) (resolve eval' name (σ s)) := by
  intro ctx
  have hlookup : (ctx.mapSpans σ).scopes.lookup name = (ctx.scopes.lookup name).map (Expr.mapSpans σ) :=
    ctx.scopes.lookup_mapSpans σ name
  by_cases hp : name ∈ ctx.pending
  · have hp' : name ∈ (ctx.mapSpans σ).pending := hp
    rw [run_resolve_pending hp, run_resolve_pending hp']
    rfl
  · have hp' : name ∉ (ctx.mapSpans σ).pending := hp
    cases hv : ctx.scopes.lookup name with
    | none =>
      rw [hv] at hlookup
      rw [run_resolve_unbound hp hv, run_resolve_unbound hp' hlookup]
      rfl
    | some value =>
      rw [hv] at hlookup
      rw [run_resolve_bound hp hv, run_resolve_bound hp' hlookup]
      have hbetween : Mapped σ (Expr.mapSpans σ) (between (Context.pend · name) Context.unpend (eval value))
          (between (Context.pend · name) Context.unpend (eval' (value.mapSpans σ))) :=
        (h value).between (fun _ => rfl) fun _ => rfl
      refine hbetween.bind (fun e => ?_) ctx
      rw [← Expr.mapSpans_relocate]
      exact mapped_pure σ _ _

end Eval

theorem Library.Standard.mapped_dispatch {lib : Library} (h : lib.Standard) (σ : Span → Span)
    (eval eval' : Expr → Eval Expr) (inv : Invocation) :
    Eval.Mapped σ (Expr.mapSpans σ) (Eval.dispatch lib eval inv)
      (Eval.dispatch lib eval' (inv.mapSpans σ)) := by
  rw [Eval.dispatch, Eval.dispatch, show (inv.mapSpans σ).name = inv.name from rfl]
  cases hf : lib.find? inv.name with
  | none =>
    intro ctx
    have hcss := Expr.css_mapSpans ctx.options σ (.call inv.site inv.args inv.span)
    rw [Expr.mapSpans, Expr.css, Expr.css, Expr.mapSpansEach_eq_map] at hcss
    change (Eval.passthrough (inv.mapSpans σ)).run _ = ((Eval.passthrough inv).run ctx).mapSpans σ _
    rw [Eval.run_passthrough, Eval.run_passthrough]
    exact congrArg (fun text => Outcome.value (Expr.atom (.text text) (σ inv.span)) (ctx.mapSpans σ)) hcss
  | some f =>
    obtain ⟨b, rfl⟩ := h.eq_ofPure hf
    refine (Eval.mapped_ofExcept (b.apply_mapped σ inv)).bind fun e => ?_
    rw [show (inv.mapSpans σ).span = σ inv.span from rfl, ← Expr.mapSpans_relocate]
    exact Eval.mapped_pure σ _ _

theorem Library.Standard.mapped_finish {lib : Library} (h : lib.Standard) (σ : Span → Span)
    (eval eval' : Expr → Eval Expr) (e : Expr) (values : List Expr) :
    Eval.Mapped σ (Expr.mapSpans σ) (e.finish lib eval values)
      ((e.mapSpans σ).finish lib eval' (values.map (Expr.mapSpans σ))) := by
  cases e with
  | atom v s => exact fun _ => rfl
  | reference name s => exact fun _ => rfl
  | deferred l op r s => exact fun _ => rfl
  | call site args s => exact h.mapped_dispatch σ eval eval' ⟨site, values⟩
  | list items s =>
    have hvalues := congrArg (Expr.list · (σ s)) (Expr.mapSpansEach_eq_map σ values)
    exact fun ctx => congrArg (Outcome.value · (ctx.mapSpans σ)) hvalues.symm
  | operation l op r s =>
    match values with
    | [a, b] =>
      rw [Expr.mapSpans, List.map_cons, List.map_cons, List.map_nil, Expr.finish, Expr.finish,
        Expr.combine_mapSpans]
      cases a.combine op b with
      | ok v => exact Eval.mapped_pure σ (Expr.mapSpans σ) (.atom v s)
      | error cause => exact Eval.mapped_fail σ _ (cause.atSpan s)
    | [] | [_] | _ :: _ :: _ :: _ => exact fun _ => rfl

theorem Library.Standard.mapped_step {lib : Library} (h : lib.Standard) {σ : Span → Span}
    {eval eval' : Expr → Eval Expr}
    (heval : ∀ e, Eval.Mapped σ (Expr.mapSpans σ) (eval e) (eval' (e.mapSpans σ))) (e : Expr) :
    Eval.Mapped σ (Expr.mapSpans σ) (e.step lib eval) ((e.mapSpans σ).step lib eval') := by
  cases he : e.isReference with
  | true =>
    obtain ⟨name, s, rfl⟩ := Expr.eq_reference he
    exact Eval.mapped_resolve heval name s
  | false =>
    have he' : (e.mapSpans σ).isReference = false := by
      cases e with
      | reference name s => cases he
      | _ => rfl
    intro ctx
    rw [Expr.step_of_operands lib eval he, Expr.step_of_operands lib eval' he',
      show (ctx.mapSpans σ).options = ctx.options from rfl, Expr.operands_mapSpans]
    exact (Eval.mapped_mapM heval _).bind (h.mapped_finish σ eval eval' e) ctx

theorem Library.Standard.mapped_evaluate {lib : Library} (h : lib.Standard) (σ : Span → Span)
    (depth : Nat) (e : Expr) :
    Eval.Mapped σ (Expr.mapSpans σ) (e.evaluate lib depth) ((e.mapSpans σ).evaluate lib depth) := by
  induction depth generalizing e with
  | zero => exact fun _ => rfl
  | succ depth ih => exact h.mapped_step ih e

/-! Spans left out of account. -/

namespace Expr

def eraseSpans (e : Expr) : Expr := e.mapSpans fun _ => .nowhere

theorem eraseSpans_relocate (s : Span) (e : Expr) : (e.relocate s).eraseSpans = e.eraseSpans := by
  cases e <;> rfl

theorem relocate_eraseSpans (e : Expr) : e.eraseSpans.relocate .nowhere = e.eraseSpans := by
  cases e <;> rfl

end Expr

end StyleValue
