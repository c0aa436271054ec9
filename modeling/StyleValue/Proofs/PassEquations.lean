import StyleValue.Expr.Pass

set_option autoImplicit false

namespace StyleValue

namespace Expr

theorem byParts {motive : Expr → Prop} (atom : ∀ v s, motive (.atom v s))
    (reference : ∀ name s, motive (.reference name s))
    (operation : ∀ l op r s, motive l → motive r → motive (.operation l op r s))
    (deferred : ∀ l op r s, motive l → motive r → motive (.deferred l op r s))
    (call : ∀ site args s, (∀ a ∈ args, motive a) → motive (.call site args s))
    (list : ∀ items s, (∀ a ∈ items, motive a) → motive (.list items s)) (e : Expr) : motive e :=
  @Expr.rec motive (fun es => ∀ a ∈ es, motive a) atom reference operation deferred call list
    (fun _ h => by cases h) (fun _ _ he hes => List.forall_mem_cons.mpr ⟨he, hes⟩) e

theorem run_acceptEach_suppression (es : List Expr) :
    (suppression.acceptEach es).run () = (es.map suppress, ()) := by
  induction es with
  | nil => rfl
  | cons e es ih =>
    rw [Pass.acceptEach, StateT.run_bind]
    change ((suppression.acceptEach es).run () >>= fun p => pure (e.suppress :: p.1, p.2) : Id _) = _
    rw [ih]
    rfl

theorem run_visitAll_suppression (es : List Expr) :
    (suppression.visitAll es).run () = (es.map suppress, ()) :=
  run_acceptEach_suppression es

@[simp] theorem suppress_atom (v : Atom) (s : Span) : (atom v s).suppress = .atom v s := rfl

@[simp] theorem suppress_reference (name : String) (s : Span) :
    (reference name s).suppress = .reference name s := rfl

@[simp] theorem suppress_operation (l : Expr) (op : Operator) (r : Expr) (s : Span) :
    (operation l op r s).suppress = .deferred l op r s := rfl

@[simp] theorem suppress_deferred (l : Expr) (op : Operator) (r : Expr) (s : Span) :
    (deferred l op r s).suppress = .deferred l op r s := rfl

@[simp] theorem suppress_call (site : Site) (args : List Expr) (s : Span) :
    (call site args s).suppress = .call site (args.map suppress) s := by
  change ((suppression.accept (.call site args s)).run ()).1 = _
  rw [Pass.accept, StateT.run_bind, run_acceptEach_suppression]
  rfl

@[simp] theorem suppress_list (items : List Expr) (s : Span) :
    (list items s).suppress = .list (items.map suppress) s := by
  change ((suppression.accept (.list items s)).run ()).1 = _
  rw [Pass.accept, StateT.run_bind, run_acceptEach_suppression]
  rfl

mutual

def fill (value? : String → Option Expr) : Expr → Expr
  | .atom v s => .atom v s
  | .reference name s =>
    match value? name with
    | some value => value.relocate s
    | none => .reference name s
  | .operation l op r s => .operation (l.fill value?) op (r.fill value?) s
  | .deferred l op r s => .deferred (l.fill value?) op (r.fill value?) s
  | .call site args s => .call site (fillEach value? args) s
  | .list items s => .list (fillEach value? items) s

def fillEach (value? : String → Option Expr) : List Expr → List Expr
  | [] => []
  | e :: es => e.fill value? :: fillEach value? es

end

theorem fillEach_eq_map (value? : String → Option Expr) (es : List Expr) :
    fillEach value? es = es.map (fill value?) := by
  induction es with
  | nil => rfl
  | cons e es ih => rw [fillEach, ih, List.map_cons]

variable {bindings : Bindings}

theorem run_acceptEach_substitution {es : List Expr}
    (h : ∀ e ∈ es, ∀ n, (((substitution bindings).visit e).run n).1 = e.fill bindings.find?) (n : Nat) :
    (((substitution bindings).acceptEach es).run n).1 = es.map (fill bindings.find?) := by
  induction es generalizing n with
  | nil => rfl
  | cons e es ih =>
    let first := ((substitution bindings).visit e).run n
    rw [Pass.acceptEach, StateT.run_bind]
    change first.1 :: (((substitution bindings).acceptEach es).run first.2).1 = _
    rw [h e List.mem_cons_self n, ih fun x hx => h x (List.mem_cons_of_mem e hx)]
    rfl

theorem run_visit_substitution (e : Expr) (n : Nat) :
    (((substitution bindings).visit e).run n).1 = e.fill bindings.find? := by
  induction e using byParts generalizing n with
  | atom v s => rfl
  | reference name s =>
    rw [fill, Pass.visit, Pass.enterOr]
    cases h : bindings.find? name with
    | none =>
      simp only [substitution, h, Pass.accept]
      rfl
    | some value =>
      simp only [substitution, h]
      rfl
  | operation l op r s ihl ihr =>
    let left := ((substitution bindings).visit l).run n
    change Expr.operation left.1 op (((substitution bindings).visit r).run left.2).1 s = _
    rw [fill, ihl, ihr]
  | deferred l op r s ihl ihr =>
    let left := ((substitution bindings).visit l).run n
    change Expr.deferred left.1 op (((substitution bindings).visit r).run left.2).1 s = _
    rw [fill, ihl, ihr]
  | call site args s ih =>
    change Expr.call site (((substitution bindings).acceptEach args).run n).1 s = _
    rw [fill, fillEach_eq_map, run_acceptEach_substitution ih]
  | list items s ih =>
    change Expr.list (((substitution bindings).acceptEach items).run n).1 s = _
    rw [fill, fillEach_eq_map, run_acceptEach_substitution ih]

theorem substitute_eq_fill (bindings : Bindings) (e : Expr) :
    (e.substitute bindings).1 = e.fill bindings.find? :=
  run_visit_substitution e 0

end Expr

end StyleValue
