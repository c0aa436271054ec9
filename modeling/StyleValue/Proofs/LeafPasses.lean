import Mathlib.Data.List.Forall2
import StyleValue.Proofs.VisitedSlots

set_option autoImplicit false

namespace StyleValue

variable {σ : Type}

inductive Leaf where
  | atom (v : Atom)
  | reference (name : String)

def Leaf.expr (s : Span) : Leaf → Expr
  | atom v => .atom v s
  | reference name => .reference name s

namespace Expr

def leaf? : Expr → Option Leaf
  | .atom v _ => some (.atom v)
  | .reference name _ => some (.reference name)
  | _ => none

theorem eq_of_leaf? {e : Expr} {leaf : Leaf} (h : e.leaf? = some leaf) : e = leaf.expr e.span := by
  cases e with
  | atom v s =>
    cases h
    rfl
  | reference name s =>
    cases h
    rfl
  | _ => cases h

mutual

/-- The expression with the same blank text in every leaf. Its shape and its spans are left, with the operators
and the sites of calls. -/
def outline : Expr → Expr
  | .atom _ s | .reference _ s => .atom (.text "") s
  | .operation l op r s => .operation l.outline op r.outline s
  | .deferred l op r s => .deferred l.outline op r.outline s
  | .call site args s => .call site (outlineEach args) s
  | .list items s => .list (outlineEach items) s

def outlineEach : List Expr → List Expr
  | [] => []
  | e :: es => e.outline :: outlineEach es

end

theorem outlineEach_eq_map (es : List Expr) : outlineEach es = es.map outline := by
  induction es with
  | nil => rfl
  | cons e es ih => rw [outlineEach, ih, List.map_cons]

theorem outline_expr (leaf : Leaf) (s : Span) : (leaf.expr s).outline = .atom (.text "") s := by
  cases leaf <;> rfl

theorem outline_withParts {e : Expr} {es : List Expr} (h : es.map outline = e.parts.map outline) :
    (e.withParts es).outline = e.outline := by
  cases e with
  | atom v s => rfl
  | reference name s => rfl
  | operation l op r s =>
    obtain ⟨l', r', rfl⟩ := List.length_eq_two.mp (by simpa [parts] using congrArg List.length h)
    obtain ⟨hl, hr⟩ : l'.outline = l.outline ∧ r'.outline = r.outline := by simpa [parts] using h
    rw [withParts, outline, outline, hl, hr]
  | deferred l op r s =>
    obtain ⟨l', r', rfl⟩ := List.length_eq_two.mp (by simpa [parts] using congrArg List.length h)
    obtain ⟨hl, hr⟩ : l'.outline = l.outline ∧ r'.outline = r.outline := by simpa [parts] using h
    rw [withParts, outline, outline, hl, hr]
  | call site args s => rw [withParts, outline, outline, outlineEach_eq_map, h, outlineEach_eq_map, parts]
  | list items s => rw [withParts, outline, outline, outlineEach_eq_map, h, outlineEach_eq_map, parts]

end Expr

/-- A pass that at every node first updates its state. Then it goes on with the parts, but at a leaf it may put
another leaf in its place. -/
structure LeafPass (σ : Type) where
  update : Expr → σ → σ
  replace : Leaf → Span → σ → Option Leaf

namespace LeafPass

open StyleValue.Expr

variable (v : LeafPass σ)

def choose (e : Expr) (s : σ) : Step :=
  match e.leaf?.bind fun leaf => v.replace leaf e.span s with
  | some leaf => .replace (leaf.expr e.span)
  | none => .descend

def pass : Pass σ where
  enter e := do
    modify (v.update e)
    return v.choose e (← get)

def after (s : σ) (nodes : List Expr) : σ := nodes.foldl (fun s e => v.update e s) s

def calls : σ → List Expr → List (Expr × σ)
  | _, [] => []
  | s, e :: nodes => (e, v.update e s) :: calls (v.update e s) nodes

/-- The pass, writing down all that it is asked and in which state it decides. -/
def recorded : LeafPass (σ × List (Expr × σ)) where
  update e s := (v.update e s.1, s.2 ++ [(e, v.update e s.1)])
  replace leaf span s := v.replace leaf span s.1

/-- What the pass leaves in the place of a node about which it decides in the state: of a leaf the one that it
asks for, or the same again, and of any other node one with the same outline. -/
inductive Places : Expr × σ → Expr → Prop
  | replaced {leaf leaf' : Leaf} {span : Span} {s : σ} (h : v.replace leaf span s = some leaf') :
    Places (leaf.expr span, s) (leaf'.expr span)
  | kept {leaf : Leaf} {span : Span} {s : σ} (h : v.replace leaf span s = none) :
    Places (leaf.expr span, s) (leaf.expr span)
  | inner {e e' : Expr} {s : σ} (h : e.leaf? = none) (houtline : e'.outline = e.outline) : Places (e, s) e'

/-- The pass has gone through the expressions once, from left to right and each node before its parts. -/
structure Traverses (s : σ) (es : List Expr) (r : List Expr × σ) : Prop where
  state : r.2 = v.after s (nodesEach es)
  outlines : r.1.map outline = es.map outline
  nodes : List.Forall₂ v.Places (v.calls s (nodesEach es)) (nodesEach r.1)

variable {v} {s t u : σ}

theorem calls_append (xs ys : List Expr) :
    v.calls s (xs ++ ys) = v.calls s xs ++ v.calls (v.after s xs) ys := by
  induction xs generalizing s with
  | nil => rfl
  | cons x xs ih => exact congrArg _ ih

theorem Traverses.nil : v.Traverses s [] ([], s) := ⟨rfl, rfl, .nil⟩

theorem Traverses.cons {e e' : Expr} {es es' : List Expr} (h : v.Traverses s [e] ([e'], t))
    (hes : v.Traverses t es (es', u)) : v.Traverses s (e :: es) (e' :: es', u) := by
  have hstate : t = v.after s (nodesEach [e]) := h.state
  subst hstate
  have hsplit (x : Expr) (xs : List Expr) : nodesEach (x :: xs) = nodesEach [x] ++ nodesEach xs := by
    simp [nodesEach]
  refine ⟨?_, ?_, ?_⟩
  · rw [hes.state, hsplit e es, after, after, after, List.foldl_append]
  · have hhead : e'.outline = e.outline := (List.cons.inj h.outlines).1
    rw [List.map_cons, List.map_cons, hhead, hes.outlines]
  · rw [hsplit e es, hsplit e' es', calls_append]
    exact List.rel_append h.nodes hes.nodes

theorem Traverses.leaf {leaf leaf' : Leaf} {span : Span}
    (h : v.Places (leaf.expr span, v.update (leaf.expr span) s) (leaf'.expr span)) :
    v.Traverses s [leaf.expr span] ([leaf'.expr span], v.update (leaf.expr span) s) := by
  have hnodes (leaf : Leaf) : nodesEach [leaf.expr span] = [leaf.expr span] := by cases leaf <;> rfl
  refine ⟨?_, ?_, ?_⟩
  · rw [hnodes]
    rfl
  · rw [List.map_singleton, List.map_singleton, outline_expr, outline_expr]
  · rw [hnodes, hnodes]
    exact .cons h .nil

theorem Traverses.inner {e : Expr} (he : e.leaf? = none) {es : List Expr}
    (h : v.Traverses (v.update e s) e.parts (es, t)) : v.Traverses s [e] ([e.withParts es], t) := by
  have houtline := outline_withParts h.outlines
  have hparts : (e.withParts es).parts = es :=
    parts_withParts (by simpa using congrArg List.length h.outlines)
  refine ⟨?_, ?_, ?_⟩
  · rw [h.state, nodesEach_singleton]
    rfl
  · rw [List.map_singleton, List.map_singleton, houtline]
  · rw [nodesEach_singleton, nodesEach_singleton, hparts]
    exact .cons (.inner he houtline) h.nodes

theorem Traverses.mapM {visit : Expr → StateM σ Expr} {es : List Expr}
    (h : ∀ e ∈ es, ∀ s, v.Traverses s [e] ([((visit e).run s).1], ((visit e).run s).2)) (s : σ) :
    v.Traverses s es ((es.mapM visit).run s) := by
  induction es generalizing s with
  | nil =>
    rw [List.mapM_nil]
    exact .nil
  | cons e es ih =>
    rw [List.mapM_cons]
    exact .cons (h e List.mem_cons_self s) (ih (fun x hx => h x (List.mem_cons_of_mem e hx)) _)

theorem run_visit (v : LeafPass σ) (e : Expr) (s : σ) : (v.pass.visit e).run s =
    match v.choose e (v.update e s) with
    | .replace e' => (e', v.update e s)
    | .descend => (v.pass.accept e).run (v.update e s) := by
  change (match v.choose e (v.update e s) with
    | .replace e' => (pure e' : StateM σ Expr)
    | .descend => v.pass.accept e).run (v.update e s) = _
  cases v.choose e (v.update e s) <;> rfl

theorem traverses_visit (e : Expr) (s : σ) :
    v.Traverses s [e] ([((v.pass.visit e).run s).1], ((v.pass.visit e).run s).2) := by
  induction e using byNode generalizing s with
  | h e ih =>
    rw [run_visit, choose]
    cases hleaf : e.leaf? with
    | none =>
      change v.Traverses s [e]
        ([((v.pass.accept e).run (v.update e s)).1], ((v.pass.accept e).run (v.update e s)).2)
      rw [Pass.accept_eq]
      exact .inner hleaf (.mapM ih (v.update e s))
    | some leaf =>
      obtain ⟨span, rfl⟩ : ∃ span, e = leaf.expr span := ⟨_, eq_of_leaf? hleaf⟩
      have haccept : v.pass.accept (leaf.expr span) = pure (leaf.expr span) := by
        cases leaf <;> rfl
      have hspan : (leaf.expr span).span = span := by cases leaf <;> rfl
      rw [Option.bind_some, hspan, haccept]
      cases hreplace : v.replace leaf span (v.update (leaf.expr span) s) with
      | none => exact .leaf (.kept hreplace)
      | some leaf' => exact .leaf (.replaced hreplace)

theorem after_recorded (s : σ) (log : List (Expr × σ)) (nodes : List Expr) :
    v.recorded.after (s, log) nodes = (v.after s nodes, log ++ v.calls s nodes) := by
  induction nodes generalizing s log with
  | nil => exact congrArg (Prod.mk s) log.append_nil.symm
  | cons e nodes ih =>
    rw [calls, List.append_cons]
    exact ih (v.update e s) (log ++ [(e, v.update e s)])

theorem state_visit (e : Expr) (s : σ) : ((v.pass.visit e).run s).2 = v.after s (nodesEach [e]) :=
  (traverses_visit e s).state

theorem result_mapM_recorded {es : List Expr}
    (h : ∀ e ∈ es, ∀ s log, ((v.recorded.pass.visit e).run (s, log)).1 = ((v.pass.visit e).run s).1)
    (s : σ) (log : List (Expr × σ)) :
    ((es.mapM v.recorded.pass.visit).run (s, log)).1 = ((es.mapM v.pass.visit).run s).1 := by
  induction es generalizing s log with
  | nil =>
    rw [List.mapM_nil, List.mapM_nil]
    rfl
  | cons e es ih =>
    have hstate : ((v.recorded.pass.visit e).run (s, log)).2 =
        (((v.pass.visit e).run s).2, log ++ v.calls s (nodesEach [e])) := by
      rw [state_visit, state_visit, after_recorded]
    rw [List.mapM_cons, List.mapM_cons]
    change ((v.recorded.pass.visit e).run (s, log)).1 ::
      ((es.mapM v.recorded.pass.visit).run ((v.recorded.pass.visit e).run (s, log)).2).1 =
        ((v.pass.visit e).run s).1 :: ((es.mapM v.pass.visit).run ((v.pass.visit e).run s).2).1
    rw [h e List.mem_cons_self, hstate, ih fun x hx => h x (List.mem_cons_of_mem e hx)]

theorem result_recorded (e : Expr) (s : σ) (log : List (Expr × σ)) :
    ((v.recorded.pass.visit e).run (s, log)).1 = ((v.pass.visit e).run s).1 := by
  induction e using byNode generalizing s log with
  | h e ih =>
    have hchoose : v.recorded.choose e (v.recorded.update e (s, log)) = v.choose e (v.update e s) := rfl
    rw [run_visit, run_visit, hchoose]
    cases v.choose e (v.update e s) with
    | replace e' => rfl
    | descend =>
      rw [Pass.accept_eq, Pass.accept_eq]
      exact congrArg e.withParts (result_mapM_recorded ih _ _)

theorem run_visitAll (v : LeafPass σ) (es : List Expr) (s : σ) :
    v.Traverses s es ((v.pass.visitAll es).run s) := by
  rw [Pass.visitAll, Pass.acceptEach_eq]
  exact .mapM (fun e _ => traverses_visit e) s

theorem run_visitAll_recorded (v : LeafPass σ) (es : List Expr) (s : σ) :
    (v.recorded.pass.visitAll es).run (s, []) =
      (((v.pass.visitAll es).run s).1, v.after s (nodesEach es), v.calls s (nodesEach es)) := by
  have hresult : ((v.recorded.pass.visitAll es).run (s, [])).1 = ((v.pass.visitAll es).run s).1 := by
    rw [Pass.visitAll, Pass.visitAll, Pass.acceptEach_eq, Pass.acceptEach_eq]
    exact result_mapM_recorded (fun e _ => result_recorded e) s []
  have hstate := (v.recorded.run_visitAll es (s, [])).state
  rw [after_recorded, List.nil_append] at hstate
  exact Prod.ext hresult hstate

theorem map_fst_calls (s : σ) (nodes : List Expr) : (v.calls s nodes).map Prod.fst = nodes := by
  induction nodes generalizing s with
  | nil => rfl
  | cons e nodes ih => rw [calls, List.map_cons, ih]

theorem exists_call_of_mem {calls : List (Expr × σ)} {nodes : List Expr} (h : List.Forall₂ v.Places calls nodes)
    {e : Expr} (he : e ∈ nodes) : ∃ x ∈ calls, v.Places x e := by
  induction h with
  | nil => cases he
  | cons hfirst hrest ih =>
    rcases List.mem_cons.mp he with rfl | he
    · exact ⟨_, List.mem_cons_self, hfirst⟩
    · obtain ⟨x, hx, hplaces⟩ := ih he
      exact ⟨x, List.mem_cons_of_mem _ hx, hplaces⟩

theorem Places.eq_empty {e : Expr} (h : v.Places (e, s) .empty) : e = .empty ∨
    ∃ leaf : Leaf, e = leaf.expr .nowhere ∧ v.replace leaf .nowhere s = some (.atom (.text "")) := by
  generalize hempty : Expr.empty = e' at h
  cases h with
  | @replaced leaf leaf' span _ h =>
    cases leaf' with
    | atom value =>
      cases hempty
      exact .inr ⟨leaf, rfl, h⟩
    | reference name => cases hempty
  | kept h => exact .inl rfl
  | inner h houtline =>
    subst hempty
    cases e with
    | atom value span => cases h
    | reference name span => cases h
    | _ => cases houtline

/-- An empty text in the slot of a part is one that was there before, or that the pass has asked for. -/
theorem Traverses.empty_mem {es es' : List Expr} (h : v.Traverses s es (es', t)) (hmem : .empty ∈ nodesEach es') :
    .empty ∈ nodesEach es ∨ ∃ leaf u, (Leaf.expr .nowhere leaf, u) ∈ v.calls s (nodesEach es) ∧
      v.replace leaf .nowhere u = some (.atom (.text "")) := by
  obtain ⟨⟨e, u⟩, hcall, hplaces⟩ := exists_call_of_mem h.nodes hmem
  rcases hplaces.eq_empty with rfl | ⟨leaf, rfl, hreplace⟩
  · left
    rw [← map_fst_calls (v := v) s (nodesEach es)]
    exact List.mem_map_of_mem hcall
  · exact .inr ⟨leaf, u, hcall, hreplace⟩

end LeafPass

open StyleValue.Expr in
/-- What the pass is asked and what it leaves behind; the slots that parts are visited in; and the pass that asks
for nothing. -/
theorem leaf_passes_visit_in_order (v : LeafPass σ) (es : List Expr) (s : σ) :
    (∃ es', (v.pass.visitAll es).run s = (es', v.after s (nodesEach es)) ∧
      (v.recorded.pass.visitAll es).run (s, []) = (es', v.after s (nodesEach es), v.calls s (nodesEach es)) ∧
      es'.map outline = es.map outline ∧ List.Forall₂ v.Places (v.calls s (nodesEach es)) (nodesEach es') ∧
      (.empty ∈ nodesEach es' → .empty ∈ nodesEach es ∨
        ∃ leaf t, (Leaf.expr .nowhere leaf, t) ∈ v.calls s (nodesEach es) ∧
          v.replace leaf .nowhere t = some (.atom (.text "")))) ∧
    (Pass.visitSlots v.pass.visit es = v.pass.visitAll es ∧
      ∀ e, v.pass.accept e = e.withParts <$> Pass.visitSlots v.pass.visit e.parts) ∧
    ((Pass.idle σ).visitAll es).run s = (es, s) := by
  refine ⟨?_, ⟨?_, fun e => ?_⟩, ?_⟩
  · have htraverses := v.run_visitAll es s
    exact ⟨((v.pass.visitAll es).run s).1, Prod.ext rfl htraverses.state, v.run_visitAll_recorded es s,
      htraverses.outlines, htraverses.nodes, htraverses.empty_mem⟩
  · rw [Pass.visitSlots_eq, Pass.visitAll, Pass.acceptEach_eq]
  · rw [Pass.visitSlots_eq, Pass.accept_eq]
  · rw [Pass.visitAll_idle]
    rfl

/-- A pass that counts the nodes and puts the count so far in the place of each variable. -/
example :
    let count (n : Nat) : Leaf := .atom (.text (String.ofList (List.replicate n 'i')))
    let v : LeafPass Nat := ⟨fun _ n => n + 1, fun
      | .reference _, _, n => some (count n)
      | .atom _, _, _ => none⟩
    (v.pass.visitAll [.list [.reference "a" ⟨0, 2⟩,
      .deferred (.reference "b" ⟨3, 5⟩) .add (.reference "c" ⟨6, 8⟩) ⟨3, 8⟩] ⟨0, 8⟩]).run 0 =
        ([.list [.atom (.text "ii") ⟨0, 2⟩,
          .deferred (.atom (.text "iiii") ⟨3, 5⟩) .add (.atom (.text "iiiii") ⟨6, 8⟩) ⟨3, 8⟩] ⟨0, 8⟩], 5) := rfl

end StyleValue
