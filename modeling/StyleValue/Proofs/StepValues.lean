import StyleValue.Proofs.StandardLibrary

set_option autoImplicit false

namespace StyleValue

def Returns {ε α : Type} (P : α → Prop) (r : Except ε α) : Prop := ∀ a, r = .ok a → P a

namespace Returns

variable {ε α β : Type} {P : α → Prop} {Q : β → Prop}

theorem ok {a : α} (h : P a) : Returns P (.ok a : Except ε α) := by
  intro b hb
  cases hb
  exact h

theorem error (f : ε) : Returns P (.error f : Except ε α) := by
  intro a ha
  cases ha

theorem bind {r : Except ε α} {k : α → Except ε β} (hr : Returns P r) (hk : ∀ a, P a → Returns Q (k a)) :
    Returns Q (r >>= k) := by
  cases r with
  | ok a => exact hk a (hr a rfl)
  | error f => exact error f

theorem after {r : Except ε α} {k : α → Except ε β} (hk : ∀ a, Returns Q (k a)) : Returns Q (r >>= k) :=
  bind (fun _ _ => trivial) fun a (_ : True) => hk a

theorem map {r : Except ε α} {g : α → β} (hr : Returns P r) (hg : ∀ a, P a → Q (g a)) :
    Returns Q (g <$> r) := by
  cases r with
  | ok a => exact ok (hg a (hr a rfl))
  | error f => exact error f

theorem ite {c : Prop} [Decidable c] {r r' : Except ε α} (hr : c → Returns P r) (hr' : ¬ c → Returns P r') :
    Returns P (if c then r else r') := by
  split
  · next h => exact hr h
  · next h => exact hr' h

end Returns

theorem Builtin.apply_answers (b : Builtin) (inv : Invocation) :
    Returns (fun e => ∃ v, e = inv.answer v) (b.apply inv) := by
  cases b with
  | percentage => exact .after fun _ => .after fun _ => .after fun _ => .ok ⟨_, rfl⟩
  | round =>
    refine .after fun _ => .after fun _ => .ite (fun _ => ?_) fun _ => ?_
    all_goals exact .after fun _ => .after fun _ => .ok ⟨_, rfl⟩
  | ceil | floor | abs | sqrt => exact .after fun _ => .after fun _ => .after fun _ => .ok ⟨_, rfl⟩
  | min | max => exact .after fun _ => .after fun _ => .after fun _ => .ok ⟨_, rfl⟩
  | unit =>
    refine .after fun _ => .after fun _ => .ite (fun _ => ?_) fun _ => ?_
    all_goals exact .after fun _ => .ok ⟨_, rfl⟩
  | rgb => exact .after fun _ => .after fun _ => .after fun _ => .after fun _ => .ok ⟨_, rfl⟩
  | rgba =>
    refine .after fun _ => .ite (fun _ => ?_) fun _ => ?_
    · exact .after fun _ => .after fun _ => .ok ⟨_, rfl⟩
    · exact .after fun _ => .after fun _ => .after fun _ => .after fun _ => .ok ⟨_, rfl⟩
  | e => exact .after fun _ => .after fun _ => .ok ⟨_, rfl⟩

abbrev Eval.Each (eval : Expr → Eval Expr) (ctx : Context) : List Expr → List Expr → Prop :=
  List.Forall₂ fun x w => (eval x).run ctx = .value w ctx

theorem Eval.Each.exists_split {eval : Expr → Eval Expr} {ctx : Context} {xs values : List Expr} {w : Expr}
    (h : Each eval ctx xs values) (hw : w ∈ values) :
    ∃ before x after, xs = before ++ x :: after ∧ (∀ y ∈ before, ∃ v, (eval y).run ctx = .value v ctx) ∧
      (eval x).run ctx = .value w ctx := by
  induction h with
  | nil => cases hw
  | @cons x v xs values hx _ ih =>
    rcases List.mem_cons.mp hw with rfl | hw
    · exact ⟨[], x, xs, rfl, nofun, hx⟩
    · obtain ⟨before, y, after, rfl, hbefore, hy⟩ := ih hw
      exact ⟨x :: before, y, after, rfl, List.forall_mem_cons.mpr ⟨⟨v, hx⟩, hbefore⟩, hy⟩

theorem Eval.Each.exists_of_mem {eval : Expr → Eval Expr} {ctx : Context} {xs values : List Expr} {w : Expr}
    (h : Each eval ctx xs values) (hw : w ∈ values) : ∃ x ∈ xs, (eval x).run ctx = .value w ctx := by
  obtain ⟨before, x, after, rfl, -, hx⟩ := h.exists_split hw
  exact ⟨x, List.mem_append_cons_self, hx⟩

/-- The ways in which a step in `ctx` leads from an expression to a value. -/
inductive Expr.Becomes (lib : Library) (eval : Expr → Eval Expr) (ctx : Context) : Expr → Expr → Prop
  | atom (v : Atom) (s : Span) : Becomes lib eval ctx (.atom v s) (.atom v s)
  | deferred (l : Expr) (op : Operator) (r : Expr) (s : Span) :
      Becomes lib eval ctx (.deferred l op r s) (.deferred l op r s)
  | reference {name : String} {s : Span} {value w : Expr} (hpending : name ∉ ctx.pending)
      (hvalue : ctx.scopes.lookup name = some value)
      (hw : (eval value).run (ctx.pend name) = .value w (ctx.pend name)) :
      Becomes lib eval ctx (.reference name s) (w.relocate s)
  | operation {l r a b : Expr} {op : Operator} {s : Span} {v : Atom} (ha : (eval l).run ctx = .value a ctx)
      (hb : (eval r).run ctx = .value b ctx) (hv : a.combine op b = .ok v) :
      Becomes lib eval ctx (.operation l op r s) (.atom v s)
  | answer {site : Site} {args values : List Expr} {s : Span} {b : Builtin} {v : Atom}
      (hvalues : Eval.Each eval ctx ((Expr.call site args s).operands ctx.options.strictMath) values)
      (hb : lib.find? site.name = some (.ofPure b.apply))
      (hv : b.apply ⟨site, values⟩ = .ok (.atom v site.span)) :
      Becomes lib eval ctx (.call site args s) (.atom v site.span)
  | text {site : Site} {args values : List Expr} {s : Span}
      (hvalues : Eval.Each eval ctx ((Expr.call site args s).operands ctx.options.strictMath) values)
      (hunknown : lib.find? site.name = none) :
      Becomes lib eval ctx (.call site args s)
        (.atom (.text ((Invocation.mk site values).css ctx.options)) site.span)
  | list {items values : List Expr} {s : Span} (hvalues : Eval.Each eval ctx items values) :
      Becomes lib eval ctx (.list items s) (.list values s)

theorem Library.Standard.becomes_of_step {lib : Library} (h : lib.Standard) {eval : Expr → Eval Expr}
    (heval : ∀ e, (eval e).Restores) {e v : Expr} {ctx after : Context}
    (hrun : (e.step lib eval).run ctx = .value v after) : e.Becomes lib eval ctx v := by
  cases e with
  | atom a s =>
    cases hrun
    exact .atom a s
  | deferred l op r s =>
    cases hrun
    exact .deferred l op r s
  | reference name s =>
    obtain ⟨hp, value, w, hv, hw, rfl⟩ := Eval.value_of_resolve heval hrun
    exact .reference hp hv hw
  | operation l op r s =>
    obtain ⟨a, ha, hrun⟩ := Eval.value_of_bind (heval l) hrun
    obtain ⟨b, hb, hrun⟩ := Eval.value_of_bind (heval r) hrun
    cases hv : a.combine op b with
    | ok w =>
      rw [hv] at hrun
      cases hrun
      exact .operation ha hb hv
    | error cause =>
      rw [hv] at hrun
      cases hrun
  | list items s =>
    obtain ⟨values, hvalues, hrun⟩ := Eval.value_of_bind (.mapM heval items) hrun
    cases hrun
    exact .list (Eval.forall₂_of_mapM heval hvalues)
  | call site args s =>
    rw [Expr.step_of_operands lib eval rfl] at hrun
    obtain ⟨values, hvalues, hrun⟩ := Eval.value_of_bind (.mapM heval _) hrun
    have heach := Eval.forall₂_of_mapM heval hvalues
    change (Eval.dispatch lib eval ⟨site, values⟩).run ctx = .value v after at hrun
    cases hf : lib.find? site.name with
    | none =>
      rw [Eval.dispatch, show lib.find? (Invocation.mk site values).name = none from hf] at hrun
      change (Eval.passthrough ⟨site, values⟩).run ctx = .value v after at hrun
      rw [Eval.run_passthrough] at hrun
      cases hrun
      exact .text heach hf
    | some f =>
      obtain ⟨b, rfl⟩ := h.eq_ofPure hf
      rw [Eval.dispatch, show lib.find? (Invocation.mk site values).name = some _ from hf] at hrun
      obtain ⟨w, hw, hrun⟩ := Eval.value_of_bind (Eval.restores_ofExcept _) hrun
      rw [Eval.run_ofExcept] at hw
      cases hb : b.apply ⟨site, values⟩ with
      | error fault =>
        rw [hb] at hw
        cases hw
      | ok x =>
        obtain ⟨u, rfl⟩ := b.apply_answers _ _ hb
        rw [hb] at hw
        cases hw
        cases hrun
        exact .answer heach hf hb

end StyleValue
