import StyleValue.Proofs.DepthBounds
import StyleValue.Proofs.ExposedNodes
import StyleValue.Proofs.StepValues

set_option autoImplicit false

namespace StyleValue

namespace Expr

def isCall : Expr → Bool
  | .call _ _ _ => true
  | _ => false

/-- Every reference, operation and call in the expression lies under a deferred operation. -/
def Normal (e : Expr) : Prop :=
  ∀ x ∈ e.exposed, x.isReference = false ∧ x.isOperation = false ∧ x.isCall = false

/-- There is no deferred operation. One that lies under another one is not exposed, but the outer one is. -/
def DeferredFree (e : Expr) : Prop := ∀ x ∈ e.exposed, x.isDeferred = false

theorem operands_relocate (strict : Bool) (s : Span) (e : Expr) :
    (e.relocate s).operands strict = e.operands strict := by
  cases e <;> rfl

theorem forall_exposed {P : Expr → Prop} {e : Expr} (he : P e)
    (hoperands : ∀ x ∈ e.operands false, ∀ y ∈ x.exposed, P y) : ∀ y ∈ e.exposed, P y := by
  intro y hy
  rcases mem_exposed.mp hy with rfl | ⟨x, hx, hy⟩
  · exact he
  · exact hoperands x hx y hy

theorem forall_exposed_relocate {P : Expr → Prop} {e : Expr} {s : Span} (hP : P e → P (e.relocate s))
    (h : ∀ y ∈ e.exposed, P y) : ∀ y ∈ (e.relocate s).exposed, P y := by
  refine forall_exposed (hP (h e (self_mem_exposed e))) fun x hx y hy => ?_
  rw [operands_relocate] at hx
  exact h y (mem_exposed_of_operand hx hy)

theorem normal_atom (v : Atom) (s : Span) : (atom v s).Normal :=
  forall_exposed ⟨rfl, rfl, rfl⟩ fun x hx => by cases hx

theorem normal_deferred (l : Expr) (op : Operator) (r : Expr) (s : Span) : (deferred l op r s).Normal :=
  forall_exposed ⟨rfl, rfl, rfl⟩ fun x hx => by cases hx

theorem normal_list {items : List Expr} (h : ∀ x ∈ items, x.Normal) (s : Span) : (list items s).Normal :=
  forall_exposed ⟨rfl, rfl, rfl⟩ h

theorem Normal.relocate {e : Expr} (h : e.Normal) (s : Span) : (e.relocate s).Normal := by
  refine forall_exposed_relocate (fun he => ?_) h
  cases e <;> exact he

theorem Normal.operand {e x : Expr} (h : e.Normal) (hx : x ∈ e.operands false) : x.Normal :=
  fun y hy => h y (mem_exposed_of_operand hx hy)

theorem deferredFree_atom (v : Atom) (s : Span) : (atom v s).DeferredFree :=
  forall_exposed rfl fun x hx => by cases hx

theorem DeferredFree.relocate {e : Expr} (h : e.DeferredFree) (s : Span) : (e.relocate s).DeferredFree := by
  refine forall_exposed_relocate (fun he => ?_) h
  cases e <;> exact he

theorem DeferredFree.operand {e x : Expr} (h : e.DeferredFree) (hx : x ∈ e.operands false) :
    x.DeferredFree :=
  fun y hy => h y (mem_exposed_of_operand hx hy)

theorem Normal.run_eq {e : Expr} (h : e.Normal) (lib : Library) (ctx : Context) {depth : Nat}
    (hdepth : e.height ≤ depth) : (e.evaluate lib depth).run ctx = .value e ctx := by
  have hself := h e (self_mem_exposed e)
  obtain ⟨depth, rfl⟩ : ∃ d, depth = d + 1 := ⟨depth - 1, by have := e.height_pos; omega⟩
  induction e using byParts generalizing depth with
  | atom v s => rfl
  | deferred l op r s => rfl
  | reference name s => cases hself.1
  | operation l op r s => cases hself.2.1
  | call site args s => cases hself.2.2
  | list items s ih =>
    have hitems : (items.mapM (evaluate lib depth)).run ctx = .value items ctx := by
      refine Eval.run_mapM_of_forall₂ (List.forall₂_same.mpr fun x hx => ?_)
      have hx' : x.Normal := h.operand hx
      have hheight : x.height ≤ depth := (height_le_heightEach hx).trans (Nat.le_of_succ_le_succ hdepth)
      obtain ⟨d, rfl⟩ : ∃ d, depth = d + 1 := ⟨depth - 1, by have := x.height_pos; omega⟩
      exact ih x hx hx' (hx' x (self_mem_exposed x)) d hheight
    change (items.mapM (evaluate lib depth) >>= fun values => pure (Expr.list values s)).run ctx = _
    rw [Eval.run_bind, hitems]
    rfl

end Expr

namespace Library.Standard

variable {lib : Library} (h : lib.Standard) {e v : Expr} {ctx after : Context} {depth : Nat}
include h

theorem normal_of_run (hrun : (e.evaluate lib depth).run ctx = .value v after) : v.Normal := by
  induction depth generalizing e v ctx after with
  | zero => cases hrun
  | succ depth ih =>
    cases h.becomes_of_step (h.restores_evaluate depth) hrun with
    | atom v s => exact Expr.normal_atom v s
    | deferred l op r s => exact Expr.normal_deferred l op r s
    | reference _ _ hw => exact (ih hw).relocate _
    | operation _ _ _ => exact Expr.normal_atom _ _
    | answer _ _ _ => exact Expr.normal_atom _ _
    | text _ _ => exact Expr.normal_atom _ _
    | list hvalues =>
      refine Expr.normal_list (fun w hw => ?_) _
      obtain ⟨x, -, hx⟩ := hvalues.exists_of_mem hw
      exact ih hx

theorem deferredFree_of_run (hscopes : ∀ name value, ctx.scopes.lookup name = some value → value.DeferredFree)
    (hrun : (e.evaluate lib depth).run ctx = .value v after) (he : e.DeferredFree) : v.DeferredFree := by
  induction depth generalizing e v ctx after with
  | zero => cases hrun
  | succ depth ih =>
    cases h.becomes_of_step (h.restores_evaluate depth) hrun with
    | atom v s => exact he
    | deferred l op r s => exact he
    | reference _ hv hw => exact (@ih _ _ (ctx.pend _) _ hscopes hw (hscopes _ _ hv)).relocate _
    | operation _ _ _ => exact Expr.deferredFree_atom _ _
    | answer _ _ _ => exact Expr.deferredFree_atom _ _
    | text _ _ => exact Expr.deferredFree_atom _ _
    | list hvalues =>
      refine Expr.forall_exposed rfl fun w hw => ?_
      obtain ⟨x, hx, hrun⟩ := hvalues.exists_of_mem hw
      exact ih hscopes hrun (he.operand hx)

end Library.Standard

theorem values_are_normal_forms {lib : Library} (h : lib.Standard) {e v : Expr} {ctx after : Context}
    {depth : Nat} (hrun : (e.evaluate lib depth).run ctx = .value v after) :
    v.Normal ∧ (∀ (lib' : Library) (ctx' : Context), v.Yields lib' ctx' (.ok v)) ∧
      (e.DeferredFree → (∀ name value, ctx.scopes.lookup name = some value → value.DeferredFree) →
        v.DeferredFree) := by
  have hv := h.normal_of_run hrun
  refine ⟨hv, fun lib' ctx' => ⟨v.height, fun depth' hdepth => hv.run_eq lib' ctx' hdepth⟩, ?_⟩
  exact fun he hscopes => h.deferredFree_of_run hscopes hrun he

/-- Under strict math an operation in the value of a variable is computed, and one in a call is not. -/
theorem values_are_normal_forms_of_operations :
    let number (x : Float) (s : Span) : Expr := .atom (.number ⟨x, none⟩) s
    let sum (s : Span) : Expr := .operation (number 1 ⟨0, 1⟩) .add (number 2 ⟨2, 3⟩) s
    let scopes : Scopes := Scopes.define {} "a" (.list [sum ⟨0, 3⟩] ⟨0, 4⟩)
    let ctx : Context := { options := { strictMath := true }, scopes }
    let e : Expr := .list [.reference "a" ⟨6, 8⟩, .call ⟨"f", ⟨9, 10⟩⟩ [sum ⟨11, 14⟩] ⟨9, 15⟩] ⟨6, 15⟩
    let v : Expr := .list [.list [number (1 + 2) ⟨0, 3⟩] ⟨6, 8⟩, .atom (.text "f(1 + 2)") ⟨9, 10⟩] ⟨6, 15⟩
    (e.evaluate .empty 5).run ctx = .value v ctx ∧ v.Normal ∧ v.Yields .builtin {} (.ok v) ∧
      e.DeferredFree ∧ v.DeferredFree := by
  intro number sum scopes ctx e v
  have hrun : (e.evaluate .empty 5).run ctx = .value v ctx := rfl
  have he : e.DeferredFree := by
    simp [Expr.DeferredFree, Expr.exposed, Expr.exposedEach, e, sum, number, Expr.isDeferred]
  have hscopes : ∀ name value, ctx.scopes.lookup name = some value → value.DeferredFree := by
    intro name value hv
    change (Table.find? (Table.empty.insert "a" _) name) = some value at hv
    rw [Table.find?_insert] at hv
    split at hv
    · cases hv
      simp [Expr.DeferredFree, Expr.exposed, Expr.exposedEach, sum, number, Expr.isDeferred]
    · cases hv
  obtain ⟨hnormal, hagain, hfree⟩ := values_are_normal_forms (.inl rfl) hrun
  exact ⟨hrun, hnormal, hagain .builtin {}, he, hfree he hscopes⟩

end StyleValue
