import StyleValue.Proofs.OccurringNodes

set_option autoImplicit false

namespace StyleValue

variable {σ : Type}

namespace Expr

/-- Induction in which every part of a node counts. -/
theorem byNode {motive : Expr → Prop} (h : ∀ e, (∀ x ∈ e.parts, motive x) → motive e) (e : Expr) :
    motive e := by
  induction e using byParts with
  | atom v s => exact h _ nofun
  | reference name s => exact h _ nofun
  | operation l op r s ihl ihr => exact h _ (by simp [parts, ihl, ihr])
  | deferred l op r s ihl ihr => exact h _ (by simp [parts, ihl, ihr])
  | call site args s ih => exact h _ ih
  | list items s ih => exact h _ ih

theorem nodes_eq_cons (e : Expr) : e.nodes = e :: nodesEach e.parts := by
  cases e <;> simp [nodes, nodesEach, parts]

theorem nodesEach_singleton (e : Expr) : nodesEach [e] = e :: nodesEach e.parts := by
  rw [nodesEach, nodesEach, List.append_nil, nodes_eq_cons]

def withParts : Expr → List Expr → Expr
  | .operation _ op _ s, [l, r] => .operation l op r s
  | .deferred _ op _ s, [l, r] => .deferred l op r s
  | .call site _ s, args => .call site args s
  | .list _ s, items => .list items s
  | e, _ => e

theorem withParts_parts (e : Expr) : e.withParts e.parts = e := by
  cases e <;> rfl

theorem parts_withParts {e : Expr} {es : List Expr} (h : es.length = e.parts.length) :
    (e.withParts es).parts = es := by
  cases e with
  | atom v s => exact (List.eq_nil_of_length_eq_zero h).symm
  | reference name s => exact (List.eq_nil_of_length_eq_zero h).symm
  | operation l op r s =>
    obtain ⟨l', r', rfl⟩ := List.length_eq_two.mp h
    rfl
  | deferred l op r s =>
    obtain ⟨l', r', rfl⟩ := List.length_eq_two.mp h
    rfl
  | call site args s => rfl
  | list items s => rfl

end Expr

namespace Pass

/-- Takes the expression out of a slot, in which an empty one is left, and stores what the visit returns. -/
def visitSlot (visit : Expr → StateM σ Expr) (i : Nat) : StateT (List Expr) (StateM σ) Unit := do
  let slots ← get
  match slots[i]? with
  | none => return
  | some e =>
    set (slots.set i .empty)
    let e' ← visit e
    modify fun slots => slots.set i e'

def visitSlots (visit : Expr → StateM σ Expr) (slots : List Expr) : StateM σ (List Expr) := do
  let r ← (forM (List.range slots.length) (visitSlot visit)).run slots
  return r.2

theorem run_visitSlot (visit : Expr → StateM σ Expr) (before : List Expr) (e : Expr) (after : List Expr) :
    (visitSlot visit before.length).run (before ++ e :: after) =
      visit e >>= fun e' => pure ((), before ++ e' :: after) := by
  simp [visitSlot]

theorem run_visitSlots (visit : Expr → StateM σ Expr) (before after : List Expr) :
    (forM (List.range' before.length after.length) (visitSlot visit)).run (before ++ after) =
      after.mapM visit >>= fun after' => pure ((), before ++ after') := by
  induction after generalizing before with
  | nil => simp
  | cons e after ih =>
    rw [List.length_cons, List.range'_succ, List.forM_cons, StateT.run_bind, run_visitSlot, List.mapM_cons]
    simp only [bind_assoc, pure_bind]
    refine bind_congr fun e' => ?_
    simpa using ih (before ++ [e'])

theorem visitSlots_eq (visit : Expr → StateM σ Expr) (slots : List Expr) :
    visitSlots visit slots = slots.mapM visit := by
  have hrun := run_visitSlots visit [] slots
  rw [List.length_nil, ← List.range_eq_range', List.nil_append] at hrun
  rw [visitSlots, hrun]
  simp

variable (p : Pass σ)

theorem acceptEach_eq (es : List Expr) : p.acceptEach es = es.mapM p.visit := by
  induction es with
  | nil => rw [acceptEach, List.mapM_nil]
  | cons e es ih =>
    rw [acceptEach, ih, List.mapM_cons]
    rfl

theorem accept_eq (e : Expr) : p.accept e = e.withParts <$> e.parts.mapM p.visit := by
  cases e with
  | atom v s => simp [accept, Expr.parts, Expr.withParts]
  | reference name s => simp [accept, Expr.parts, Expr.withParts]
  | operation l op r s => simp [accept, Expr.parts, Expr.withParts, visit]
  | deferred l op r s => simp [accept, Expr.parts, Expr.withParts, visit]
  | call site args s =>
    rw [accept, acceptEach_eq]
    rfl
  | list items s =>
    rw [accept, acceptEach_eq]
    rfl

theorem mapM_eq_pure {visit : Expr → StateM σ Expr} {es : List Expr} (h : ∀ e ∈ es, visit e = pure e) :
    es.mapM visit = pure es := by
  induction es with
  | nil => rw [List.mapM_nil]
  | cons e es ih =>
    rw [List.mapM_cons, h e List.mem_cons_self, pure_bind, ih fun x hx => h x (List.mem_cons_of_mem e hx),
      pure_bind]

theorem visit_idle (e : Expr) : (idle σ).visit e = pure e := by
  induction e using Expr.byNode with
  | h e ih =>
    change (idle σ).accept e = pure e
    rw [accept_eq, mapM_eq_pure ih, map_pure, e.withParts_parts]

theorem visitAll_idle (es : List Expr) : (idle σ).visitAll es = pure es := by
  rw [visitAll, acceptEach_eq, mapM_eq_pure fun e _ => visit_idle e]

end Pass

end StyleValue
