import StyleValue.Proofs.ExposedNodes

set_option autoImplicit false

namespace StyleValue

namespace Expr

mutual

def nodes : Expr → List Expr
  | .atom v s => [.atom v s]
  | .reference name s => [.reference name s]
  | .operation l op r s => .operation l op r s :: (l.nodes ++ r.nodes)
  | .deferred l op r s => .deferred l op r s :: (l.nodes ++ r.nodes)
  | .call site args s => .call site args s :: nodesEach args
  | .list items s => .list items s :: nodesEach items

def nodesEach : List Expr → List Expr
  | [] => []
  | e :: es => e.nodes ++ nodesEach es

end

/-- What a node is made of. Of a deferred operation these are its operands. -/
def parts : Expr → List Expr
  | .operation l _ r _ | .deferred l _ r _ => [l, r]
  | .call _ args _ => args
  | .list items _ => items
  | .atom _ _ | .reference _ _ => []

theorem mem_nodesEach {y : Expr} {es : List Expr} : y ∈ nodesEach es ↔ ∃ x ∈ es, y ∈ x.nodes := by
  induction es with
  | nil => simp [nodesEach]
  | cons e es ih => simp [nodesEach, ih]

theorem mem_nodes {y e : Expr} : y ∈ e.nodes ↔ y = e ∨ ∃ x ∈ e.parts, y ∈ x.nodes := by
  cases e with
  | atom v s => simp [nodes, parts]
  | reference name s => simp [nodes, parts]
  | operation l op r s => simp [nodes, parts]
  | deferred l op r s => simp [nodes, parts]
  | call site args s => simp [nodes, parts, mem_nodesEach]
  | list items s => simp [nodes, parts, mem_nodesEach]

theorem mem_parts_of_operand {x e : Expr} (hx : x ∈ e.operands false) : x ∈ e.parts := by
  cases e with
  | deferred l op r s => cases hx
  | _ => exact hx

theorem mem_nodes_of_exposed {y e : Expr} (hy : y ∈ e.exposed) : y ∈ e.nodes := by
  induction e using byOperands with
  | h e ih =>
    rcases mem_exposed.mp hy with rfl | ⟨x, hx, hy⟩
    · exact mem_nodes.mpr (.inl rfl)
    · exact mem_nodes.mpr (.inr ⟨x, mem_parts_of_operand hx, ih x hx hy⟩)

/-- The variables that the expression refers to, under deferred operations too. -/
def references (e : Expr) : List String :=
  e.nodes.filterMap fun
    | .reference name _ => some name
    | _ => none

theorem mem_references {name : String} {e : Expr} :
    name ∈ e.references ↔ ∃ s, .reference name s ∈ e.nodes := by
  rw [references, List.mem_filterMap]
  constructor
  · rintro ⟨x, hx, hname⟩
    split at hname
    · next s =>
      cases hname
      exact ⟨s, hx⟩
    · cases hname
  · rintro ⟨s, hs⟩
    exact ⟨_, hs, rfl⟩

def ownSpans : Expr → List Span
  | .call site _ s => [s, site.span]
  | .atom _ s | .reference _ s | .operation _ _ _ s | .deferred _ _ _ s | .list _ s => [s]

def spans (e : Expr) : List Span := e.nodes.flatMap ownSpans

theorem mem_spans {s : Span} {e : Expr} :
    s ∈ e.spans ↔ s ∈ e.ownSpans ∨ ∃ x ∈ e.parts, s ∈ x.spans := by
  simp only [spans, List.mem_flatMap]
  constructor
  · rintro ⟨y, hy, hs⟩
    rcases mem_nodes.mp hy with rfl | ⟨x, hx, hy⟩
    · exact .inl hs
    · exact .inr ⟨x, hx, y, hy, hs⟩
  · rintro (hs | ⟨x, hx, y, hy, hs⟩)
    · exact ⟨e, mem_nodes.mpr (.inl rfl), hs⟩
    · exact ⟨y, mem_nodes.mpr (.inr ⟨x, hx, hy⟩), hs⟩

theorem span_mem_spans (e : Expr) : e.span ∈ e.spans := by
  refine mem_spans.mpr (.inl ?_)
  cases e <;> exact List.mem_cons_self

theorem site_mem_spans (site : Site) (args : List Expr) (s : Span) :
    site.span ∈ (call site args s).spans :=
  mem_spans.mpr (.inl (List.mem_cons_of_mem s List.mem_cons_self))

theorem mem_spans_list {s t : Span} {items : List Expr} :
    s ∈ (list items t).spans ↔ s = t ∨ ∃ x ∈ items, s ∈ x.spans := by
  rw [mem_spans, ownSpans, List.mem_singleton]
  rfl

theorem mem_spans_of_relocate {s t : Span} {e : Expr} (h : s ∈ (e.relocate t).spans) :
    s = t ∨ s ∈ e.spans := by
  have hparts : (e.relocate t).parts = e.parts := by cases e <;> rfl
  have hown : s ∈ (e.relocate t).ownSpans → s = t ∨ s ∈ e.ownSpans := by
    cases e with
    | call site args u =>
      intro hs
      rcases List.mem_pair.mp hs with rfl | rfl
      · exact .inl rfl
      · exact .inr (List.mem_pair.mpr (.inr rfl))
    | _ => exact fun hs => .inl (List.mem_singleton.mp hs)
  rw [mem_spans, hparts] at h
  rcases h with h | h
  · exact (hown h).imp id fun hs => mem_spans.mpr (.inl hs)
  · exact .inr (mem_spans.mpr (.inr h))

theorem mem_spans_suppress {s : Span} {e : Expr} : s ∈ e.suppress.spans ↔ s ∈ e.spans := by
  have hparts : ∀ {es : List Expr}, (∀ a ∈ es, s ∈ a.suppress.spans ↔ s ∈ a.spans) →
      ((∃ x ∈ es.map suppress, s ∈ x.spans) ↔ ∃ x ∈ es, s ∈ x.spans) := by
    intro es ih
    simp only [List.mem_map, exists_exists_and_eq_and]
    exact exists_congr fun a => and_congr_right (ih a)
  induction e using byParts with
  | atom v t => rfl
  | reference name t => rfl
  | operation l op r t => rw [suppress_operation, mem_spans, mem_spans]; rfl
  | deferred l op r t => rfl
  | call site args t ih =>
    rw [suppress_call, mem_spans, mem_spans]
    exact or_congr .rfl (hparts ih)
  | list items t ih =>
    rw [suppress_list, mem_spans_list, mem_spans_list]
    exact or_congr .rfl (hparts ih)

theorem mem_spans_of_operand {strict : Bool} {x e : Expr} {s : Span} (hx : x ∈ e.operands strict)
    (hs : s ∈ x.spans) : s ∈ e.spans := by
  obtain ⟨a, ha, hsame⟩ := exists_operand hx
  refine mem_spans.mpr (.inr ⟨a, mem_parts_of_operand ha, ?_⟩)
  rcases hsame with rfl | rfl
  · exact hs
  · exact mem_spans_suppress.mp hs

end Expr

end StyleValue
