import StyleValue.Proofs.StepEquations

set_option autoImplicit false

namespace StyleValue

namespace Expr

mutual

/-- The nodes outside deferred operations, those operations included. -/
def exposed : Expr → List Expr
  | .atom v s => [.atom v s]
  | .reference name s => [.reference name s]
  | .operation l op r s => .operation l op r s :: (l.exposed ++ r.exposed)
  | .deferred l op r s => [.deferred l op r s]
  | .call site args s => .call site args s :: exposedEach args
  | .list items s => .list items s :: exposedEach items

def exposedEach : List Expr → List Expr
  | [] => []
  | e :: es => e.exposed ++ exposedEach es

end

theorem mem_exposedEach {y : Expr} {es : List Expr} :
    y ∈ exposedEach es ↔ ∃ x ∈ es, y ∈ x.exposed := by
  induction es with
  | nil => simp [exposedEach]
  | cons e es ih => simp [exposedEach, ih]

theorem mem_exposed {y e : Expr} : y ∈ e.exposed ↔ y = e ∨ ∃ x ∈ e.operands false, y ∈ x.exposed := by
  cases e with
  | atom v s => simp [exposed, operands]
  | reference name s => simp [exposed, operands]
  | operation l op r s => simp [exposed, operands]
  | deferred l op r s => simp [exposed, operands]
  | call site args s => simp [exposed, operands, mem_exposedEach]
  | list items s => simp [exposed, operands, mem_exposedEach]

theorem self_mem_exposed (e : Expr) : e ∈ e.exposed := mem_exposed.mpr (.inl rfl)

theorem mem_exposed_of_operand {x y e : Expr} (hx : x ∈ e.operands false) (hy : y ∈ x.exposed) :
    y ∈ e.exposed := mem_exposed.mpr (.inr ⟨x, hx, hy⟩)

theorem byOperands {motive : Expr → Prop}
    (h : ∀ e, (∀ x ∈ e.operands false, motive x) → motive e) (e : Expr) : motive e := by
  induction e using byParts with
  | atom v s => exact h _ fun x hx => by cases hx
  | reference name s => exact h _ fun x hx => by cases hx
  | deferred l op r s => exact h _ fun x hx => by cases hx
  | operation l op r s ihl ihr =>
    refine h _ fun x hx => ?_
    rcases List.mem_cons.mp hx with rfl | hx
    · exact ihl
    · obtain rfl := List.mem_singleton.mp hx
      exact ihr
  | call site args s ih => exact h _ ih
  | list items s ih => exact h _ ih

theorem mem_exposed_trans {x y e : Expr} (hy : y ∈ x.exposed) (hx : x ∈ e.exposed) : y ∈ e.exposed := by
  induction e using byOperands with
  | h e ih =>
    rcases mem_exposed.mp hx with rfl | ⟨z, hz, hx⟩
    · exact hy
    · exact mem_exposed_of_operand hz (ih z hz hx)

/-- Each operation in the expression is deferred, or lies under a deferred one. -/
def Settled (e : Expr) : Prop := ∀ x ∈ e.exposed, x.isOperation = false

theorem Settled.operand {e x : Expr} (h : e.Settled) (hx : x ∈ e.operands false) : x.Settled :=
  fun y hy => h y (mem_exposed_of_operand hx hy)

theorem settled_suppress (e : Expr) : e.suppress.Settled := by
  have hparts : ∀ {e' : Expr}, e'.isOperation = false → (∀ x ∈ e'.operands false, x.Settled) →
      e'.Settled := by
    intro e' he hx y hy
    rcases mem_exposed.mp hy with rfl | ⟨x, hmem, hy⟩
    · exact he
    · exact hx x hmem y hy
  induction e using byParts with
  | atom v s => exact hparts rfl fun x hx => by cases hx
  | reference name s => exact hparts rfl fun x hx => by cases hx
  | operation l op r s => exact hparts rfl fun x hx => by cases hx
  | deferred l op r s => exact hparts rfl fun x hx => by cases hx
  | call site args s ih =>
    rw [suppress_call]
    refine hparts rfl fun x hx => ?_
    obtain ⟨a, ha, rfl⟩ := List.mem_map.mp hx
    exact ih a ha
  | list items s ih =>
    rw [suppress_list]
    refine hparts rfl fun x hx => ?_
    obtain ⟨a, ha, rfl⟩ := List.mem_map.mp hx
    exact ih a ha

theorem suppress_of_settled {e : Expr} (h : e.Settled) : e.suppress = e := by
  have hmap : ∀ {es : List Expr}, (∀ a ∈ es, a.Settled → a.suppress = a) → (∀ a ∈ es, a.Settled) →
      es.map suppress = es := by
    intro es ih hes
    rw [List.map_congr_left fun a ha => ih a ha (hes a ha)]
    exact List.map_id es
  induction e using byParts with
  | atom v s => rfl
  | reference name s => rfl
  | operation l op r s => cases h _ (self_mem_exposed _)
  | deferred l op r s => rfl
  | call site args s ih => rw [suppress_call, hmap ih fun a ha => h.operand ha]
  | list items s ih => rw [suppress_list, hmap ih fun a ha => h.operand ha]

theorem map_suppress_of_settled {es : List Expr} (h : ∀ e ∈ es, e.Settled) : es.map suppress = es := by
  rw [List.map_congr_left fun e he => suppress_of_settled (h e he)]
  exact List.map_id es

end Expr

end StyleValue
