import Mathlib.Data.Finset.Card
import StyleValue.Proofs.ScriptedFunctions
import StyleValue.Proofs.StandardLibrary

/-!
How deep evaluations nest. Each step either goes down in a tree or resolves a variable, and a variable that
is resolved is pending until then. So the number of bound names that are not pending, and then the height of
the tree, bound the depth that is needed, and a result does not depend on how much more there is.
-/

set_option autoImplicit false

namespace StyleValue

namespace Expr

mutual

def height : Expr → Nat
  | .atom _ _ | .reference _ _ => 1
  | .operation l _ r _ | .deferred l _ r _ => max l.height r.height + 1
  | .call _ args _ => heightEach args + 1
  | .list items _ => heightEach items + 1

def heightEach : List Expr → Nat
  | [] => 0
  | e :: es => max e.height (heightEach es)

end

theorem height_pos (e : Expr) : 0 < e.height := by
  cases e <;> simp [height]

theorem height_le_heightEach {x : Expr} {es : List Expr} (h : x ∈ es) : x.height ≤ heightEach es := by
  induction es with
  | nil => cases h
  | cons e es ih =>
    rw [heightEach]
    rcases List.mem_cons.mp h with rfl | h
    · exact Nat.le_max_left _ _
    · exact (ih h).trans (Nat.le_max_right _ _)

theorem heightEach_map_suppress {es : List Expr} (h : ∀ e ∈ es, e.suppress.height = e.height) :
    heightEach (es.map suppress) = heightEach es := by
  induction es with
  | nil => rfl
  | cons e es ih =>
    rw [List.map_cons, heightEach, heightEach, h e List.mem_cons_self,
      ih fun x hx => h x (List.mem_cons_of_mem e hx)]

theorem height_suppress (e : Expr) : e.suppress.height = e.height := by
  induction e using byParts with
  | atom v s => rfl
  | reference name s => rfl
  | operation l op r s => rfl
  | deferred l op r s => rfl
  | call site args s ih => rw [suppress_call, height, height, heightEach_map_suppress ih]
  | list items s ih => rw [suppress_list, height, height, heightEach_map_suppress ih]

theorem height_operand {strict : Bool} {e x : Expr} (h : x ∈ e.operands strict) :
    x.height < e.height := by
  obtain ⟨a, ha, hx⟩ := exists_operand h
  have hsame : x.height = a.height := by
    rcases hx with rfl | rfl
    · rfl
    · exact height_suppress a
  have hlt : a.height < e.height := by
    cases e with
    | atom v s => cases ha
    | reference name s => cases ha
    | deferred l op r s => cases ha
    | operation l op r s =>
      rw [height]
      rcases List.mem_pair.mp ha with rfl | rfl <;> omega
    | call site args s => exact Nat.lt_succ_of_le (height_le_heightEach ha)
    | list items s => exact Nat.lt_succ_of_le (height_le_heightEach ha)
  omega

end Expr

namespace Scopes

def names (s : Scopes) : List String := (s.global :: s.inner).flatMap Table.names

theorem mem_names {s : Scopes} {name : String} {value : Expr} (h : s.lookup name = some value) :
    name ∈ s.names := by
  have hfind : ∀ {t : Bindings}, t.find? name = some value → name ∈ t.names := by
    intro t ht
    obtain ⟨before, after, heq, -⟩ := List.lookup_eq_some_iff.mp ht
    rw [Table.names, heq]
    simp
  rw [names, List.mem_flatMap]
  rw [lookup, Option.or_eq_some_iff] at h
  rcases h with h | ⟨-, h⟩
  · obtain ⟨t, ht, hv⟩ := List.exists_of_findSome?_eq_some h
    exact ⟨t, List.mem_cons_of_mem _ ht, hfind hv⟩
  · exact ⟨s.global, List.mem_cons_self, hfind h⟩

def bound (s : Scopes) : Finset String := s.names.toFinset

/-- Greatest height of a value that a name has. -/
def valueHeight (s : Scopes) : Nat := Expr.heightEach (s.names.filterMap s.lookup)

theorem height_le_valueHeight {s : Scopes} {name : String} {value : Expr}
    (h : s.lookup name = some value) : value.height ≤ s.valueHeight :=
  Expr.height_le_heightEach (List.mem_filterMap.mpr ⟨name, mem_names h, h⟩)

end Scopes

def Context.idle (ctx : Context) : Finset String := ctx.scopes.bound \ ctx.pending.toFinset

theorem Context.card_idle_pend {ctx : Context} {name : String} {value : Expr}
    (hp : name ∉ ctx.pending) (h : ctx.scopes.lookup name = some value) :
    (ctx.pend name).idle.card + 1 = ctx.idle.card := by
  have hmem : name ∈ ctx.idle := by
    simp [idle, Scopes.bound, Scopes.mem_names h, hp]
  have heq : (ctx.pend name).idle = ctx.idle.erase name := by
    change ctx.scopes.bound \ (name :: ctx.pending).toFinset = _
    rw [List.toFinset_cons, Finset.sdiff_insert, idle]
  rw [heq, Finset.card_erase_add_one hmem]

namespace Library.Standard

variable {lib : Library} (h : lib.Standard)
include h

theorem run_ne_tooDeep {e : Expr} {ctx : Context} {depth height : Nat}
    (hvalues : ctx.scopes.valueHeight ≤ height)
    (hdepth : ctx.idle.card * height + e.height ≤ depth) : (e.evaluate lib depth).run ctx ≠ .tooDeep := by
  induction depth generalizing e ctx with
  | zero =>
    have := e.height_pos
    omega
  | succ depth ih =>
    intro hrun
    cases he : e.isReference with
    | true =>
      obtain ⟨name, s, rfl⟩ := Expr.eq_reference he
      obtain ⟨hp, value, hv, hdeep⟩ := Eval.tooDeep_of_resolve hrun
      refine @ih value (ctx.pend name) hvalues ?_ hdeep
      have hcard := Context.card_idle_pend hp hv
      have hheight := (Scopes.height_le_valueHeight hv).trans hvalues
      have hone : (Expr.reference name s).height = 1 := rfl
      rw [← hcard, Nat.succ_mul] at hdepth
      omega
    | false =>
      obtain ⟨before, x, after, hoperands, -, hdeep⟩ :=
        h.tooDeep_of_step (h.restores_evaluate depth) he hrun
      have hx : x ∈ e.operands ctx.options.strictMath := by simp [hoperands]
      have := Expr.height_operand hx
      exact ih hvalues (by omega) hdeep

/-- Evaluation ends, and nests at most as deep as one more value than there are bound names is high. -/
theorem run_ne_tooDeep_of_height {e : Expr} {ctx : Context} {depth : Nat}
    (hdepth : (ctx.scopes.bound.card + 1) * max e.height ctx.scopes.valueHeight ≤ depth) :
    (e.evaluate lib depth).run ctx ≠ .tooDeep := by
  refine h.run_ne_tooDeep (Nat.le_max_right e.height _) ?_
  have hidle : ctx.idle.card ≤ ctx.scopes.bound.card := Finset.card_le_card Finset.sdiff_subset
  have hmul := Nat.mul_le_mul_right (max e.height ctx.scopes.valueHeight) hidle
  rw [Nat.succ_mul] at hdepth
  omega

theorem result_mono {e : Expr} {ctx : Context} {depth depth' : Nat} (hle : depth ≤ depth')
    {r : Except Fault Expr} (hr : ((e.evaluate lib depth).run ctx).result? = some r) :
    ((e.evaluate lib depth').run ctx).result? = some r :=
  (h.scripted.approximates_evaluate hle e).result hr

end Library.Standard

/-- Evaluation in `ctx` ends with `r`, with `ctx` as it was, if only it may nest deep enough. -/
def Expr.Yields (lib : Library) (ctx : Context) (e : Expr) (r : Except Fault Expr) : Prop :=
  ∃ least, ∀ depth, least ≤ depth → (e.evaluate lib depth).run ctx = .ofResult r ctx

def Fault.causeOf? : Except Fault Expr → Option Cause
  | .ok _ => none
  | .error f => some f.cause

namespace Library.Standard

variable {lib : Library} (h : lib.Standard)
include h

theorem yields_of_result {e : Expr} {ctx : Context} {depth : Nat} {r : Except Fault Expr}
    (hr : ((e.evaluate lib depth).run ctx).result? = some r) : e.Yields lib ctx r :=
  ⟨depth, fun depth' hle => (h.restores_evaluate depth' e).run_eq (h.result_mono hle hr)⟩

theorem yields_of_run {e v : Expr} {ctx after : Context} {depth : Nat}
    (hrun : (e.evaluate lib depth).run ctx = .value v after) : e.Yields lib ctx (.ok v) :=
  h.yields_of_result (by rw [hrun]; rfl)

theorem exists_yields (e : Expr) (ctx : Context) : ∃ r, e.Yields lib ctx r := by
  have hdeep : (e.evaluate lib _).run ctx ≠ .tooDeep := h.run_ne_tooDeep_of_height (Nat.le_refl _)
  rw [ne_eq, Outcome.eq_tooDeep_iff, ← ne_eq, Option.ne_none_iff_exists'] at hdeep
  obtain ⟨r, hr⟩ := hdeep
  exact ⟨r, h.yields_of_result hr⟩

theorem exists_value_of_test {e : Expr} {ctx : Context} {p : Expr → Bool} {depth : Nat}
    (htest : (((e.evaluate lib depth).run ctx).result?.bind Except.toOption).any p = true) :
    ∃ v, e.Yields lib ctx (.ok v) ∧ p v = true := by
  obtain ⟨v, hv, hp⟩ := Option.any_eq_true _ _ |>.mp htest
  obtain ⟨r, hr, hok⟩ := Option.bind_eq_some_iff.mp hv
  cases r with
  | ok w =>
    cases hok
    exact ⟨v, h.yields_of_result hr, hp⟩
  | error f => cases hok

theorem exists_fault_of_cause {e : Expr} {ctx : Context} {cause : Cause} {depth : Nat}
    (hcause : ((e.evaluate lib depth).run ctx).result?.bind Fault.causeOf? = some cause) :
    ∃ f, e.Yields lib ctx (.error f) ∧ f.cause = cause := by
  obtain ⟨r, hr, hcause⟩ := Option.bind_eq_some_iff.mp hcause
  cases r with
  | ok v => cases hcause
  | error f => exact ⟨f, h.yields_of_result hr, Option.some.inj hcause⟩

end Library.Standard

namespace Expr.Yields

variable {lib : Library} {ctx : Context} {e : Expr} {r r' : Except Fault Expr}

theorem exists_result (h : e.Yields lib ctx r) :
    ∃ depth, ((e.evaluate lib depth).run ctx).result? = some r := by
  obtain ⟨least, hrun⟩ := h
  exact ⟨least, by rw [hrun least (Nat.le_refl least), Outcome.result?_ofResult]⟩

theorem unique (h : e.Yields lib ctx r) (h' : e.Yields lib ctx r') : r = r' := by
  obtain ⟨least, hrun⟩ := h
  obtain ⟨least', hrun'⟩ := h'
  have heq := (hrun _ (Nat.le_max_left least least')).symm.trans (hrun' _ (Nat.le_max_right least least'))
  have hres := congrArg Outcome.result? heq
  rw [Outcome.result?_ofResult, Outcome.result?_ofResult] at hres
  exact Option.some.inj hres

end Expr.Yields

end StyleValue
