import StyleValue.Proofs.DepthBounds

/-!
Expansion: evaluation that resolves variables without end and never asks which of them are pending. Where
nothing is pending at the outset, the check for cycles changes nothing but this: expressions whose expansion
does not end fail as cyclic.
-/

set_option autoImplicit false

namespace StyleValue

def Fault.IsCyclic (f : Fault) : Prop := ∃ name, f.cause = .cyclic name

def Context.cleared (ctx : Context) : Context := { ctx with pending := [] }

/-- Runs a step as if nothing was pending. -/
def Eval.unpended {α : Type} (m : Eval α) : Eval α := fun ctx =>
  match m.run ctx.cleared with
  | .value a _ => .value a ctx
  | .fault f _ => .fault f ctx
  | .tooDeep => .tooDeep

def Expr.expand (lib : Library) : Nat → Expr → Eval Expr
  | 0, _ => .tooDeep
  | depth + 1, e => .unpended (e.step lib (expand lib depth))

namespace Eval

variable {α : Type} {m m' : Eval α}

theorem run_unpended (m : Eval α) (ctx : Context) :
    m.unpended.run ctx = match m.run ctx.cleared with
      | .value a _ => .value a ctx
      | .fault f _ => .fault f ctx
      | .tooDeep => .tooDeep := rfl

theorem result_unpended (m : Eval α) (ctx : Context) :
    (m.unpended.run ctx).result? = (m.run ctx.cleared).result? := by
  rw [run_unpended]
  cases m.run ctx.cleared <;> rfl

theorem restores_unpended (m : Eval α) : m.unpended.Restores := by
  intro ctx after h
  rw [run_unpended] at h
  cases hm : m.run ctx.cleared <;> rw [hm] at h <;> cases h <;> rfl

theorem Approximates.unpended (h : m.Approximates m') : m.unpended.Approximates m'.unpended := by
  intro ctx
  rw [run_unpended, run_unpended]
  rcases h ctx.cleared with h | h
  · exact .inl (by rw [h])
  · exact .inr (by rw [h])

end Eval

namespace Expr

variable {lib : Library}

theorem restores_expand (lib : Library) (depth : Nat) (e : Expr) : (e.expand lib depth).Restores := by
  cases depth with
  | zero => exact Eval.restores_tooDeep
  | succ depth => exact Eval.restores_unpended _

theorem result_expand_succ (lib : Library) (depth : Nat) (e : Expr) (ctx : Context) :
    ((e.expand lib (depth + 1)).run ctx).result? =
      ((e.step lib (expand lib depth)).run ctx.cleared).result? :=
  Eval.result_unpended _ ctx

theorem result_expand_of_cleared (lib : Library) (depth : Nat) (e : Expr) {ctx ctx' : Context}
    (h : ctx.cleared = ctx'.cleared) :
    ((e.expand lib depth).run ctx).result? = ((e.expand lib depth).run ctx').result? := by
  cases depth with
  | zero => rfl
  | succ depth => rw [result_expand_succ, result_expand_succ, h]

theorem expand_tooDeep_of_cleared {depth : Nat} {e : Expr} {ctx ctx' : Context}
    (hrun : (e.expand lib depth).run ctx = .tooDeep) (h : ctx.cleared = ctx'.cleared) :
    (e.expand lib depth).run ctx' = .tooDeep := by
  rw [Outcome.eq_tooDeep_iff] at hrun ⊢
  rw [← result_expand_of_cleared lib depth e h, hrun]

end Expr

namespace Library.Standard

variable {lib : Library} (h : lib.Standard)
include h

theorem expand_approximates {depth depth' : Nat} (hle : depth ≤ depth') (e : Expr) :
    (e.expand lib depth).Approximates (e.expand lib depth') := by
  induction depth generalizing depth' e with
  | zero => exact fun ctx => .inl rfl
  | succ depth ih =>
    obtain ⟨depth', rfl⟩ : ∃ d, depth' = d + 1 := ⟨depth' - 1, by omega⟩
    exact (h.scripted.approximates_step (ih (Nat.le_of_succ_le_succ hle)) e).unpended

theorem expand_follows_succ (depth : Nat) (e : Expr) (ctx : Context) :
    ((e.expand lib depth).run ctx).Follows Outcome.noFault ((e.expand lib (depth + 1)).run ctx) :=
  (h.expand_approximates (Nat.le_succ depth) e).follows _ ctx

theorem expand_result_mono {e : Expr} {ctx : Context} {depth depth' : Nat} (hle : depth ≤ depth')
    {r : Except Fault Expr} (hr : ((e.expand lib depth).run ctx).result? = some r) :
    ((e.expand lib depth').run ctx).result? = some r :=
  (h.expand_approximates hle e).result hr

theorem expand_tooDeep_anti {e : Expr} {ctx : Context} {depth depth' : Nat} (hle : depth ≤ depth')
    (hrun : (e.expand lib depth').run ctx = .tooDeep) : (e.expand lib depth).run ctx = .tooDeep := by
  rw [Outcome.eq_tooDeep_iff] at hrun ⊢
  cases hr : ((e.expand lib depth).run ctx).result? with
  | none => rfl
  | some r => rw [h.expand_result_mono hle hr] at hrun; cases hrun

theorem evaluate_follows_expand (depth : Nat) (e : Expr) (ctx : Context) :
    ((e.evaluate lib depth).run ctx).Follows Fault.IsCyclic ((e.expand lib depth).run ctx) := by
  induction depth generalizing e ctx with
  | zero => trivial
  | succ depth ih =>
    refine .congr ?_ rfl (Expr.result_expand_succ lib depth e ctx)
    cases he : e.isReference with
    | true =>
      obtain ⟨name, s, rfl⟩ := Expr.eq_reference he
      change ((Eval.resolve _ name s).run ctx).Follows _ ((Eval.resolve _ name s).run ctx.cleared)
      by_cases hp : name ∈ ctx.pending
      · rw [Eval.run_resolve_pending hp]
        exact .inl ⟨name, rfl⟩
      · have hp' : name ∉ ctx.cleared.pending := List.not_mem_nil
        cases hv : ctx.scopes.lookup name with
        | none =>
          rw [Eval.run_resolve_unbound hp hv, Eval.run_resolve_unbound hp' hv]
          exact .inr rfl
        | some value =>
          have hclear : (ctx.cleared.pend name).cleared = (ctx.pend name).cleared := rfl
          have hvalue := (ih value (ctx.pend name)).congr rfl
            (Expr.result_expand_of_cleared lib depth value hclear)
          exact hvalue.of_map (Eval.result_resolve_bound hp hv _ s) (Eval.result_resolve_bound hp' hv _ s)
    | false =>
      refine h.step_follows (h.restores_evaluate depth) (Expr.restores_expand lib depth) he rfl rfl
        fun x _ => ?_
      have hclear : ctx.cleared.cleared = ctx.cleared := rfl
      exact (ih x ctx).congr rfl (Expr.result_expand_of_cleared lib depth x hclear)

theorem exists_least_depth {e : Expr} {ctx : Context} {depth : Nat} {r : Except Fault Expr}
    (hr : ((e.expand lib depth).run ctx).result? = some r) :
    ∃ least ≤ depth, ((e.expand lib least).run ctx).result? = some r ∧
      (e.expand lib (least - 1)).run ctx = .tooDeep := by
  induction depth with
  | zero => cases hr
  | succ depth ih =>
    cases hprev : ((e.expand lib depth).run ctx).result? with
    | none => exact ⟨depth + 1, Nat.le_refl _, hr, Outcome.eq_tooDeep_iff.mpr hprev⟩
    | some r' =>
      have heq := (h.expand_result_mono (Nat.le_succ depth) hprev).symm.trans hr
      obtain ⟨least, hle, hleast, hshort⟩ := ih (hprev.trans heq)
      exact ⟨least, Nat.le_succ_of_le hle, hleast, hshort⟩

end Library.Standard

/-- The values of the pending variables do not end within `depth`. This holds along a resolution: a value
ends only after those of the variables that it refers to. -/
def Context.PendingOutlast (lib : Library) (depth : Nat) (ctx : Context) : Prop :=
  ∀ name ∈ ctx.pending, ∃ value, ctx.scopes.lookup name = some value ∧
    (value.expand lib depth).run ctx = .tooDeep

namespace Library.Standard

variable {lib : Library} (h : lib.Standard)
include h

theorem pendingOutlast_anti {ctx : Context} {depth depth' : Nat} (hle : depth ≤ depth')
    (hout : ctx.PendingOutlast lib depth') : ctx.PendingOutlast lib depth := by
  intro name hname
  obtain ⟨value, hv, hdeep⟩ := hout name hname
  exact ⟨value, hv, h.expand_tooDeep_anti hle hdeep⟩

omit h in
theorem pendingOutlast_pend {ctx : Context} {depth : Nat} {name : String} {value : Expr}
    (hout : ctx.PendingOutlast lib depth) (hv : ctx.scopes.lookup name = some value)
    (hdeep : (value.expand lib depth).run ctx = .tooDeep) : (ctx.pend name).PendingOutlast lib depth := by
  intro other hother
  rcases List.mem_cons.mp hother with rfl | hother
  · exact ⟨value, hv, Expr.expand_tooDeep_of_cleared hdeep rfl⟩
  · obtain ⟨value', hv', hdeep'⟩ := hout other hother
    exact ⟨value', hv', Expr.expand_tooDeep_of_cleared hdeep' rfl⟩

theorem expand_follows_evaluate (depth : Nat) (e : Expr) (ctx : Context)
    (hout : ctx.PendingOutlast lib (depth - 1)) :
    ((e.expand lib depth).run ctx).Follows Outcome.noFault ((e.evaluate lib depth).run ctx) := by
  induction depth using Nat.strong_induction_on generalizing e ctx with
  | _ depth ih =>
  cases depth with
  | zero => trivial
  | succ depth =>
    refine .congr ?_ (Expr.result_expand_succ lib depth e ctx) rfl
    cases he : e.isReference with
    | true =>
      obtain ⟨name, s, rfl⟩ := Expr.eq_reference he
      change ((Eval.resolve _ name s).run ctx.cleared).Follows _ ((Eval.resolve _ name s).run ctx)
      have hp' : name ∉ ctx.cleared.pending := List.not_mem_nil
      by_cases hp : name ∈ ctx.pending
      · obtain ⟨value, hv, hdeep⟩ := hout name hp
        have hdeep' : (value.expand lib depth).run (ctx.cleared.pend name) = .tooDeep :=
          Expr.expand_tooDeep_of_cleared hdeep rfl
        refine .of_result fun r hr => ?_
        rw [Eval.result_resolve_bound hp' hv, hdeep'] at hr
        cases hr
      · cases hv : ctx.scopes.lookup name with
        | none =>
          rw [Eval.run_resolve_unbound hp hv, Eval.run_resolve_unbound hp' hv]
          exact .inr rfl
        | some value =>
          refine Outcome.Follows.of_map (.of_result fun r hr => ?_)
            (Eval.result_resolve_bound hp' hv _ s) (Eval.result_resolve_bound hp hv _ s)
          -- At the least depth at which the value ends, its own variable outlasts it too.
          have hclear : (ctx.cleared.pend name).cleared = ctx.cleared := rfl
          rw [Expr.result_expand_of_cleared lib depth value hclear] at hr
          obtain ⟨least, hle, hleast, hshort⟩ := h.exists_least_depth hr
          have hpend : (ctx.pend name).PendingOutlast lib (least - 1) :=
            pendingOutlast_pend (h.pendingOutlast_anti (by omega) hout) hv
              (Expr.expand_tooDeep_of_cleared hshort rfl)
          have hfollows := ih least (by omega) value (ctx.pend name) hpend
          rw [Expr.result_expand_of_cleared lib least value
            (show ctx.cleared = (ctx.pend name).cleared from rfl)] at hleast
          exact h.result_mono hle (hfollows.result_of_noFault hleast)
    | false =>
      refine h.step_follows (Expr.restores_expand lib depth) (h.restores_evaluate depth) he rfl rfl
        fun x _ => ?_
      have hx := ih depth (Nat.lt_succ_self depth) x ctx (h.pendingOutlast_anti (Nat.sub_le depth 1) hout)
      exact hx.congr (Expr.result_expand_of_cleared lib depth x rfl) rfl

end Library.Standard

def Expr.Expands (lib : Library) (ctx : Context) (e : Expr) (r : Except Fault Expr) : Prop :=
  ∃ depth, ((e.expand lib depth).run ctx).result? = some r

namespace Library.Standard

variable {lib : Library} (h : lib.Standard) {ctx : Context} {e : Expr} {r : Except Fault Expr}
include h

theorem expands_of_yields (he : e.Yields lib ctx r) (hr : ∀ f, r = .error f → ¬ f.IsCyclic) :
    e.Expands lib ctx r := by
  obtain ⟨depth, hrun⟩ := he.exists_result
  exact ⟨depth, (h.evaluate_follows_expand depth e ctx).result hrun hr⟩

theorem yields_of_expands (hp : ctx.pending = []) (he : e.Expands lib ctx r) : e.Yields lib ctx r := by
  obtain ⟨depth, hr⟩ := he
  have hout : ctx.PendingOutlast lib (depth - 1) := by
    intro name hname
    rw [hp] at hname
    cases hname
  exact h.yields_of_result ((h.expand_follows_evaluate depth e ctx hout).result_of_noFault hr)

end Library.Standard

end StyleValue
