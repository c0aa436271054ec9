import StyleValue.Setup
import StyleValue.Proofs.StepEquations

set_option autoImplicit false

namespace StyleValue

/-- The builtin library, or none. -/
def Library.Standard (lib : Library) : Prop := lib = .empty ∨ lib = .builtin

theorem Function.ofPure_injective {f g : Invocation → Except Fault Expr} (h : Function.ofPure f = .ofPure g) :
    f = g := by
  funext inv
  have hrun := congrFun (congrFun (congrFun h pure) inv) {}
  change (Eval.ofExcept (f inv)).run {} = (Eval.ofExcept (g inv)).run {} at hrun
  rw [Eval.run_ofExcept, Eval.run_ofExcept] at hrun
  have hres := congrArg Outcome.result? hrun
  rw [Outcome.result?_ofResult, Outcome.result?_ofResult] at hres
  exact Option.some.inj hres

namespace Library

theorem find?_register (lib : Library) (name other : String) (f : Function) :
    (lib.register name f).find? other = if fold other = fold name then some f else lib.find? other :=
  Table.find?_insert lib.table (fold name) (fold other) f

theorem fold_eq_iff {name other : String} :
    fold name = fold other ↔ name.toList.map Char.toLower = other.toList.map Char.toLower := by
  rw [fold, fold, ← String.toList_inj, String.toList_map, String.toList_map]

theorem find?_foldl_register (bs : List Builtin) (lib : Library) (name : String) :
    (bs.foldl (fun lib b => lib.register b.name (.ofPure b.apply)) lib).find? name =
      ((bs.reverse.find? fun b => fold name = fold b.name).map fun b => .ofPure b.apply).or
        (lib.find? name) := by
  induction bs generalizing lib with
  | nil => rfl
  | cons b bs ih =>
    rw [List.foldl_cons, ih, find?_register, List.reverse_cons, List.find?_append, Option.map_or,
      Option.or_assoc]
    by_cases h : fold name = fold b.name <;> simp [h]

theorem find?_builtin (name : String) : builtin.find? name =
    (Builtin.all.reverse.find? fun b => fold name = fold b.name).map fun b => .ofPure b.apply := by
  rw [builtin, find?_foldl_register]
  exact Option.or_none

theorem Standard.eq_ofPure {lib : Library} (h : lib.Standard) {name : String} {f : Function}
    (hf : lib.find? name = some f) : ∃ b : Builtin, f = .ofPure b.apply := by
  rcases h with rfl | rfl
  · cases hf
  · rw [find?_builtin] at hf
    obtain ⟨b, -, rfl⟩ := Option.map_eq_some_iff.mp hf
    exact ⟨b, rfl⟩

theorem Standard.restores {lib : Library} (h : lib.Standard) (eval : Expr → Eval Expr) :
    ∀ name f, lib.find? name = some f → ∀ inv, (f eval inv).Restores := by
  intro name f hf inv
  obtain ⟨b, rfl⟩ := h.eq_ofPure hf
  exact Eval.restores_ofExcept (b.apply inv)

end Library

def Fails {ε α : Type} (P : ε → Prop) (r : Except ε α) : Prop := ∀ f, r = .error f → P f

namespace Fails

variable {ε α β : Type} {P : ε → Prop}

theorem ok (a : α) : Fails P (.ok a) := by
  intro f h
  cases h

theorem error {f : ε} (h : P f) : Fails P (.error f : Except ε α) := by
  intro g hg
  cases hg
  exact h

theorem bind {r : Except ε α} {k : α → Except ε β} (hr : Fails P r) (hk : ∀ a, Fails P (k a)) :
    Fails P (r >>= k) := by
  cases r with
  | ok a => exact hk a
  | error f => exact error (hr f rfl)

theorem map {r : Except ε α} (g : α → β) (hr : Fails P r) : Fails P (g <$> r) := by
  cases r with
  | ok a => exact ok (g a)
  | error f => exact error (hr f rfl)

theorem ite {c : Prop} [Decidable c] {r r' : Except ε α} (hr : Fails P r) (hr' : Fails P r') :
    Fails P (if c then r else r') := by
  split
  · exact hr
  · exact hr'

end Fails

def Cause.isOfArithmetic : Cause → Prop
  | .operands _ _ _ | .divisionByZero | .notFinite _ => True
  | _ => False

theorem Operator.apply_fails (op : Operator) (x y : Float) : Fails Cause.isOfArithmetic (op.apply x y) :=
  .ite (.error trivial) (.ite (.ok _) (.error trivial))

theorem Expr.combine_fails (l : Expr) (op : Operator) (r : Expr) :
    Fails Cause.isOfArithmetic (l.combine op r) := by
  have hnumber : ∀ a b : Number, Fails Cause.isOfArithmetic (a.combine op b) := fun a b =>
    (op.apply_fails _ _).bind fun _ => .ok _
  have hcolor : ∀ a b : Color, Fails Cause.isOfArithmetic (a.combine op b) := fun a b =>
    (op.apply_fails _ _).bind fun _ => (op.apply_fails _ _).bind fun _ =>
      (op.apply_fails _ _).bind fun _ => .ok _
  have hscale : ∀ (a : Color) (x : Float), Fails Cause.isOfArithmetic (a.scale op x) := fun a x =>
    (op.apply_fails _ _).bind fun _ => (op.apply_fails _ _).bind fun _ =>
      (op.apply_fails _ _).bind fun _ => .ok _
  unfold combine
  split
  · exact (hnumber _ _).map _
  · exact (hcolor _ _).map _
  · exact (hscale _ _).map _
  · exact .ite ((hscale _ _).map _) (.error trivial)
  · exact .error trivial

def Fault.isOfCall (f : Fault) : Prop :=
  match f.cause with
  | .arity _ _ _ | .argument _ _ _ _ | .unitClash _ _ _ | .notFinite _ => True
  | _ => False

namespace Invocation

def Blames (inv : Invocation) (f : Fault) : Prop :=
  f.isOfCall ∧ ∃ s, f.span = some s ∧ (s = inv.span ∨ ∃ a ∈ inv.args, s = a.span)

variable (inv : Invocation)

theorem blames_site {cause : Cause} (h : (cause.atSpan inv.span).isOfCall) :
    inv.Blames (cause.atSpan inv.span) :=
  ⟨h, inv.span, rfl, .inl rfl⟩

theorem expect_fails (arity : Arity) : Fails inv.Blames (inv.expect arity) :=
  .ite (.ok ()) (.error (inv.blames_site trivial))

theorem read_fails {α : Type} (expected : String) (view : Expr → Option α) (index : Nat) :
    Fails inv.Blames (inv.read expected view index) := by
  unfold read
  split
  · exact .ok _
  · refine .error ⟨trivial, _, rfl, ?_⟩
    cases harg : inv.args[index]? with
    | none => exact .inl rfl
    | some a => exact .inr ⟨a, List.mem_of_getElem? harg, rfl⟩

theorem finite_fails (x : Float) : Fails inv.Blames (inv.finite x) :=
  .ite (.ok x) (.error (inv.blames_site trivial))

end Invocation

namespace Library

variable (inv : Invocation)

theorem agree_fails (seen other : Option String) : Fails inv.Blames (agree inv seen other) := by
  unfold agree
  split
  · exact .ite (.ok _) (.error (inv.blames_site trivial))
  · exact .ok _
  · exact .ok _

theorem chooseFrom_fails (prefer : Float → Float → Bool) (count index : Nat) (best : Number)
    (unit : Option String) : Fails inv.Blames (chooseFrom inv prefer count index best unit) := by
  induction count generalizing index best unit with
  | zero => exact .ok best
  | succ count ih =>
    rw [chooseFrom]
    refine (inv.read_fails _ _ index).bind fun candidate => ?_
    exact (agree_fails inv unit candidate.unit).bind fun unit => ih _ _ unit

theorem channel_fails (index : Nat) : Fails inv.Blames (channel inv index) :=
  (inv.read_fails _ _ index).bind fun _ => .ok _

theorem alpha_fails (index : Nat) : Fails inv.Blames (alpha inv index) :=
  (inv.read_fails _ _ index).bind fun _ => .ok _

theorem mapNumber_fails (g : Float → Float) : Fails inv.Blames (mapNumber g inv) :=
  (inv.expect_fails _).bind fun _ => (inv.read_fails _ _ 0).bind fun n =>
    (inv.finite_fails (g n.value)).bind fun _ => .ok _

theorem choose_fails (prefer : Float → Float → Bool) : Fails inv.Blames (choose prefer inv) :=
  (inv.expect_fails _).bind fun _ => (inv.read_fails _ _ 0).bind fun n =>
    (chooseFrom_fails inv prefer _ _ n n.unit).bind fun _ => .ok _

end Library

theorem Builtin.apply_fails (b : Builtin) (inv : Invocation) : Fails inv.Blames (b.apply inv) := by
  cases b with
  | percentage =>
    exact (inv.expect_fails _).bind fun _ => (inv.read_fails _ _ 0).bind fun n =>
      (inv.finite_fails _).bind fun _ => .ok _
  | round =>
    refine (inv.expect_fails _).bind fun _ => (inv.read_fails _ _ 0).bind fun n => ?_
    refine .ite (((inv.read_fails _ _ 1).map _).bind fun places => ?_) (.bind (.ok 0) fun places => ?_)
    all_goals exact (inv.finite_fails _).bind fun _ => .ok _
  | ceil | floor | abs | sqrt => exact Library.mapNumber_fails inv _
  | min | max => exact Library.choose_fails inv _
  | unit =>
    refine (inv.expect_fails _).bind fun _ => (inv.read_fails _ _ 0).bind fun n => ?_
    exact .ite (((inv.read_fails _ _ 1).map _).bind fun _ => .ok _) (.bind (.ok none) fun _ => .ok _)
  | rgb =>
    exact (inv.expect_fails _).bind fun _ => (Library.channel_fails inv 0).bind fun _ =>
      (Library.channel_fails inv 1).bind fun _ => (Library.channel_fails inv 2).bind fun _ => .ok _
  | rgba =>
    refine (inv.expect_fails _).bind fun _ => .ite ?_ ?_
    · exact (inv.read_fails _ _ 0).bind fun _ => (Library.alpha_fails inv 1).bind fun _ => .ok _
    · exact (Library.channel_fails inv 0).bind fun _ => (Library.channel_fails inv 1).bind fun _ =>
        (Library.channel_fails inv 2).bind fun _ => (Library.alpha_fails inv 3).bind fun _ => .ok _
  | e => exact (inv.expect_fails _).bind fun _ => (inv.read_fails _ _ 0).bind fun _ => .ok _

namespace Expr

theorem cssEach_eq_map (opts : Options) (es : List Expr) : cssEach opts es = es.map (css opts) := by
  induction es with
  | nil => rfl
  | cons e es ih => rw [cssEach, ih, List.map_cons]

theorem css_of_compress {opts opts' : Options} (h : opts.compress = opts'.compress) (e : Expr) :
    e.css opts = e.css opts' := by
  have hsep : opts.separator = opts'.separator := by rw [Options.separator, Options.separator, h]
  induction e using byParts with
  | atom v s => cases v <;> simp only [css, Atom.css, Color.css, h, hsep]
  | reference name s => rfl
  | operation l op r s ihl ihr => rw [css, css, ihl, ihr]
  | deferred l op r s ihl ihr => rw [css, css, ihl, ihr]
  | call site args s ih =>
    rw [css, css, cssEach_eq_map, cssEach_eq_map, List.map_congr_left ih, hsep]
  | list items s ih => rw [css, css, cssEach_eq_map, cssEach_eq_map, List.map_congr_left ih]

end Expr

theorem Invocation.css_of_compress {opts opts' : Options} (h : opts.compress = opts'.compress)
    (inv : Invocation) : inv.css opts = inv.css opts' := by
  have hcall := Expr.css_of_compress h (.call inv.site inv.args inv.span)
  rw [Expr.css, Expr.css] at hcall
  exact hcall

namespace Library.Standard

variable {lib : Library} (h : lib.Standard)
include h

theorem dispatch_result (inv : Invocation) (opts : Options) :
    ∃ r : Except Fault Expr, Fails inv.Blames r ∧ ∀ (eval : Expr → Eval Expr) (ctx : Context),
      ctx.options.compress = opts.compress → (Eval.dispatch lib eval inv).run ctx = .ofResult r ctx := by
  cases hf : lib.find? inv.name with
  | none =>
    refine ⟨.ok (inv.answer (.text (inv.css opts))), .ok _, fun eval ctx hc => ?_⟩
    rw [Eval.dispatch, hf]
    change (Eval.passthrough inv).run ctx = _
    rw [Eval.run_passthrough, inv.css_of_compress hc]
    rfl
  | some f =>
    obtain ⟨b, rfl⟩ := h.eq_ofPure hf
    refine ⟨Expr.relocate inv.span <$> b.apply inv, (b.apply_fails inv).map _, fun eval ctx _ => ?_⟩
    rw [Eval.dispatch, hf]
    change (Eval.ofExcept (b.apply inv) >>= fun e => pure (e.relocate inv.span)).run ctx = _
    rw [Eval.run_bind, Eval.run_ofExcept]
    cases b.apply inv <;> rfl

theorem finish_result (e : Expr) (values : List Expr) (opts : Options) :
    ∃ r : Except Fault Expr, Fails (fun f => ∀ name, f.cause ≠ .cyclic name) r ∧
      ∀ (eval : Expr → Eval Expr) (ctx : Context), ctx.options.compress = opts.compress →
        (e.finish lib eval values).run ctx = .ofResult r ctx := by
  cases e with
  | atom v s => exact ⟨.ok (.atom v s), .ok _, fun _ _ _ => rfl⟩
  | reference name s => exact ⟨.ok (.reference name s), .ok _, fun _ _ _ => rfl⟩
  | deferred l op r s => exact ⟨.ok (.deferred l op r s), .ok _, fun _ _ _ => rfl⟩
  | list items s => exact ⟨.ok (.list values s), .ok _, fun _ _ _ => rfl⟩
  | call site args s =>
    obtain ⟨r, hr, hrun⟩ := h.dispatch_result ⟨site, values⟩ opts
    refine ⟨r, fun f hf name hn => ?_, hrun⟩
    have hcall := (hr f hf).1
    rw [Fault.isOfCall, hn] at hcall
    exact hcall
  | operation l op r s =>
    match values with
    | [a, b] =>
      have hf := a.combine_fails op b
      simp only [Expr.finish]
      cases hc : a.combine op b with
      | ok v => exact ⟨.ok (.atom v s), .ok _, fun _ _ _ => rfl⟩
      | error cause =>
        refine ⟨.error (cause.atSpan s), .error fun name hn => ?_, fun _ _ _ => rfl⟩
        have hcause := hf cause hc
        rw [show cause = .cyclic name from hn] at hcause
        exact hcause
    | [] | [_] | _ :: _ :: _ :: _ => exact ⟨.ok (.list [] s), .ok _, fun _ _ _ => rfl⟩

variable {eval eval' : Expr → Eval Expr} {e e' : Expr} {ctx ctx' : Context}

theorem step_follows_of_map {γ : Type} {exempt : Fault → Prop} (heval : ∀ e, (eval e).Restores)
    (heval' : ∀ e, (eval' e).Restores) (he : e.isReference = false) (he' : e'.isReference = false)
    (k k' : γ → Expr) (cs : List γ) (hops : e.operands ctx.options.strictMath = cs.map k)
    (hops' : e'.operands ctx'.options.strictMath = cs.map k')
    (hfinish : ∀ values, e'.finish lib eval' values = e.finish lib eval' values)
    (hcompress : ctx'.options.compress = ctx.options.compress)
    (hparts : ∀ c ∈ cs, ((eval (k c)).run ctx).Follows exempt ((eval' (k' c)).run ctx')) :
    ((e.step lib eval).run ctx).Follows exempt ((e'.step lib eval').run ctx') := by
  rw [Expr.step_of_operands lib eval he, Expr.step_of_operands lib eval' he', hops, hops']
  refine Eval.follows_bind (.mapM heval _) (.mapM heval' _)
    (Eval.follows_mapM heval heval' k k' cs hparts) fun values => ?_
  obtain ⟨r, -, hr⟩ := h.finish_result e values ctx.options
  rw [hfinish, hr eval ctx rfl, hr eval' ctx' hcompress]
  refine .of_result fun r' hr' => ?_
  rw [Outcome.result?_ofResult] at hr' ⊢
  exact hr'

theorem step_follows {exempt : Fault → Prop} (heval : ∀ e, (eval e).Restores)
    (heval' : ∀ e, (eval' e).Restores) (he : e.isReference = false)
    (hops : e.operands ctx'.options.strictMath = e.operands ctx.options.strictMath)
    (hcompress : ctx'.options.compress = ctx.options.compress)
    (hparts : ∀ x ∈ e.operands ctx.options.strictMath,
      ((eval x).run ctx).Follows exempt ((eval' x).run ctx')) :
    ((e.step lib eval).run ctx).Follows exempt ((e.step lib eval').run ctx') :=
  h.step_follows_of_map heval heval' he he id id _ (List.map_id _).symm
    (hops.trans (List.map_id _).symm) (fun _ => rfl) hcompress hparts

theorem cyclic_of_step (heval : ∀ e, (eval e).Restores) (he : e.isReference = false) {f : Fault}
    {name : String} (hf : f.cause = .cyclic name) {after : Context}
    (hrun : (e.step lib eval).run ctx = .fault f after) :
    ∃ x ∈ e.operands ctx.options.strictMath, (eval x).run ctx = .fault f ctx := by
  rw [Expr.step_of_operands lib eval he] at hrun
  rcases Eval.fault_of_bind (.mapM heval _) hrun with hparts | ⟨values, -, hfin⟩
  · exact Eval.fault_of_mapM heval hparts
  · obtain ⟨r, hr, hres⟩ := h.finish_result e values ctx.options
    rw [hres eval ctx rfl] at hfin
    cases r with
    | ok v => cases hfin
    | error g =>
      cases hfin
      exact absurd hf (hr f rfl name)

theorem tooDeep_of_step (heval : ∀ e, (eval e).Restores) (he : e.isReference = false)
    (hrun : (e.step lib eval).run ctx = .tooDeep) :
    ∃ before x after, e.operands ctx.options.strictMath = before ++ x :: after ∧
      (∀ y ∈ before, ∃ v, (eval y).run ctx = .value v ctx) ∧ (eval x).run ctx = .tooDeep := by
  rw [Expr.step_of_operands lib eval he] at hrun
  rcases Eval.tooDeep_of_bind (.mapM heval _) hrun with hparts | ⟨values, -, hfin⟩
  · exact Eval.tooDeep_of_mapM heval hparts
  · obtain ⟨r, -, hres⟩ := h.finish_result e values ctx.options
    rw [hres eval ctx rfl] at hfin
    cases r <;> cases hfin

end Library.Standard

/-- Every function, run with what evaluation hands to it, ends in the context of its call. -/
def Library.Restores (lib : Library) : Prop :=
  ∀ name f, lib.find? name = some f → ∀ depth inv, (f (Expr.evaluate lib depth) inv).Restores

theorem Expr.restores_evaluate {lib : Library} (h : lib.Restores) (depth : Nat) (e : Expr) :
    (e.evaluate lib depth).Restores := by
  induction depth generalizing e with
  | zero => exact Eval.restores_tooDeep
  | succ depth ih => exact restores_step (fun name f hf => h name f hf depth) ih e

theorem Library.Standard.library_restores {lib : Library} (h : lib.Standard) : lib.Restores :=
  fun name f hf depth => h.restores (Expr.evaluate lib depth) name f hf

theorem Library.Standard.restores_evaluate {lib : Library} (h : lib.Standard) (depth : Nat) (e : Expr) :
    (e.evaluate lib depth).Restores :=
  Expr.restores_evaluate h.library_restores depth e

theorem evaluation_leaves_context :
    Library.builtin.Restores ∧
      ∀ lib : Library, lib.Restores → ∀ (e : Expr) (depth : Nat) (ctx after : Context),
        ((e.evaluate lib depth).run ctx).after? = some after → after = ctx :=
  ⟨Library.Standard.library_restores (.inr rfl), fun _ h e depth => Expr.restores_evaluate h depth e⟩

/-- A call that fails at its second argument, after its first one has been written in a buffer. -/
theorem evaluation_leaves_context_of_cycle :
    let ctx : Context := { output := ⟨"a", ["b", "c"]⟩, pending := ["x"] }
    let e : Expr := .call ⟨"f", .nowhere⟩
      [.call ⟨"g", .nowhere⟩ [] .nowhere, .reference "x" .nowhere] .nowhere
    ∃ after, ((e.evaluate .empty 3).run ctx).after? = some after ∧ after = ctx := by
  intro ctx e
  have h : ((e.evaluate .empty 3).run ctx).after? = some ctx := rfl
  exact ⟨ctx, h, evaluation_leaves_context.2 .empty (Library.Standard.library_restores (.inl rfl)) e 3 ctx
    ctx h⟩

end StyleValue
