import StyleValue.Proofs.OccurringNodes

set_option autoImplicit false

namespace StyleValue

namespace Table

variable {α : Type}

theorem find?_foldl_insert (entries : List (String × α)) (t : Table α) (name : String) :
    (entries.foldl (fun t entry => t.insert entry.1 entry.2) t).find? name =
      (entries.reverse.lookup name).or (t.find? name) := by
  induction entries generalizing t with
  | nil => rfl
  | cons entry entries ih =>
    obtain ⟨key, value⟩ := entry
    have hlast : (if name = key then some value else t.find? name) =
        ([(key, value)].lookup name).or (t.find? name) := by
      by_cases h : name = key
      · simp [h]
      · have hb : (name == key) = false := by simpa using h
        simp [List.lookup_cons, h, hb]
    rw [List.foldl_cons, ih, find?_insert, hlast, List.reverse_cons, List.lookup_append, Option.or_assoc]

theorem find?_ofList (entries : List (String × α)) (name : String) :
    (ofList entries).find? name = entries.reverse.lookup name := by
  rw [ofList, find?_foldl_insert, find?_empty, Option.or_none]

end Table

namespace Expr

theorem nodesEach_eq_flatMap (es : List Expr) : nodesEach es = es.flatMap nodes := by
  induction es with
  | nil => rfl
  | cons e es ih => rw [nodesEach, ih, List.flatMap_cons]

@[simp] theorem references_atom (v : Atom) (s : Span) : (atom v s).references = [] := rfl

@[simp] theorem references_reference (name : String) (s : Span) :
    (reference name s).references = [name] := rfl

@[simp] theorem references_operation (l : Expr) (op : Operator) (r : Expr) (s : Span) :
    (operation l op r s).references = l.references ++ r.references := by
  simp [references, nodes]

@[simp] theorem references_deferred (l : Expr) (op : Operator) (r : Expr) (s : Span) :
    (deferred l op r s).references = l.references ++ r.references := by
  simp [references, nodes]

@[simp] theorem references_call (site : Site) (args : List Expr) (s : Span) :
    (call site args s).references = args.flatMap references := by
  simp [references, nodes, nodesEach_eq_flatMap, List.filterMap_flatMap]
  rfl

@[simp] theorem references_list (items : List Expr) (s : Span) :
    (list items s).references = items.flatMap references := by
  simp [references, nodes, nodesEach_eq_flatMap, List.filterMap_flatMap]
  rfl

@[simp] theorem references_relocate (s : Span) (e : Expr) : (e.relocate s).references = e.references := by
  cases e <;> simp [relocate]

variable {bindings : Bindings}

theorem count_acceptEach {es : List Expr} (h : ∀ e ∈ es, ∀ n, (((substitution bindings).visit e).run n).2 =
    n + e.references.countP bindings.contains) (n : Nat) : (((substitution bindings).acceptEach es).run n).2 =
      n + (es.flatMap references).countP bindings.contains := by
  induction es generalizing n with
  | nil => rfl
  | cons e es ih =>
    let first := ((substitution bindings).visit e).run n
    rw [Pass.acceptEach, StateT.run_bind]
    change (((substitution bindings).acceptEach es).run first.2).2 = _
    rw [ih fun x hx => h x (List.mem_cons_of_mem e hx), h e List.mem_cons_self n, List.flatMap_cons,
      List.countP_append, Nat.add_assoc]

theorem count_visit (e : Expr) (n : Nat) : (((substitution bindings).visit e).run n).2 =
    n + e.references.countP bindings.contains := by
  induction e using byParts generalizing n with
  | atom v s => rfl
  | reference name s =>
    rw [references_reference, List.countP_singleton, Table.contains, Pass.visit, Pass.enterOr]
    cases h : bindings.find? name with
    | none =>
      simp only [substitution, h, Pass.accept]
      rfl
    | some value =>
      simp only [substitution, h]
      rfl
  | operation l op r s ihl ihr =>
    let left := ((substitution bindings).visit l).run n
    change (((substitution bindings).visit r).run left.2).2 = _
    rw [ihr, ihl, references_operation, List.countP_append, Nat.add_assoc]
  | deferred l op r s ihl ihr =>
    let left := ((substitution bindings).visit l).run n
    change (((substitution bindings).visit r).run left.2).2 = _
    rw [ihr, ihl, references_deferred, List.countP_append, Nat.add_assoc]
  | call site args s ih =>
    change (((substitution bindings).acceptEach args).run n).2 = _
    rw [count_acceptEach ih, references_call]
  | list items s ih =>
    change (((substitution bindings).acceptEach items).run n).2 = _
    rw [count_acceptEach ih, references_list]

theorem run_substitution (bindings : Bindings) (e : Expr) (n : Nat) :
    ((substitution bindings).visit e).run n =
      (e.fill bindings.find?, n + e.references.countP bindings.contains) :=
  Prod.ext (run_visit_substitution e n) (count_visit e n)

theorem run_mapM_substitution (bindings : Bindings) (trees : List Expr) (n : Nat) :
    (trees.mapM (substitution bindings).visit).run n = (trees.map (fill bindings.find?),
      n + (trees.flatMap references).countP bindings.contains) := by
  induction trees generalizing n with
  | nil => rfl
  | cons e trees ih =>
    rw [List.mapM_cons, StateT.run_bind, run_substitution]
    change (trees.mapM (substitution bindings).visit >>= fun es => pure (e.fill bindings.find? :: es)).run
      (n + e.references.countP bindings.contains) = _
    rw [StateT.run_bind, ih, List.map_cons, List.flatMap_cons, List.countP_append, ← Nat.add_assoc]
    rfl

theorem fillEach_of_unbound {value? : String → Option Expr} {es : List Expr}
    (ih : ∀ a ∈ es, (∀ name ∈ a.references, value? name = none) → a.fill value? = a)
    (h : ∀ name ∈ es.flatMap references, value? name = none) : fillEach value? es = es := by
  have heach : ∀ a ∈ es, a.fill value? = id a := fun a ha =>
    ih a ha fun name hname => h name (List.mem_flatMap.mpr ⟨a, ha, hname⟩)
  rw [fillEach_eq_map, List.map_congr_left heach, List.map_id]

theorem fill_of_unbound {value? : String → Option Expr} {e : Expr}
    (h : ∀ name ∈ e.references, value? name = none) : e.fill value? = e := by
  induction e using byParts with
  | atom v s => rfl
  | reference name s => rw [fill, h name List.mem_cons_self]
  | operation l op r s ihl ihr =>
    rw [references_operation, List.forall_mem_append] at h
    rw [fill, ihl h.1, ihr h.2]
  | deferred l op r s ihl ihr =>
    rw [references_deferred, List.forall_mem_append] at h
    rw [fill, ihl h.1, ihr h.2]
  | call site args s ih =>
    rw [references_call] at h
    rw [fill, fillEach_of_unbound ih h]
  | list items s ih =>
    rw [references_list] at h
    rw [fill, fillEach_of_unbound ih h]

/-- What is left after filling in was unbound, or has come in with a value. -/
theorem mem_references_fill {value? : String → Option Expr} {e : Expr} {other : String}
    (h : other ∈ (e.fill value?).references) :
    value? other = none ∨ ∃ name value, value? name = some value ∧ other ∈ value.references := by
  induction e using byParts with
  | atom v s => cases h
  | reference name s =>
    rw [fill] at h
    cases hv : value? name with
    | none =>
      rw [hv] at h
      obtain rfl := List.mem_singleton.mp h
      exact .inl hv
    | some value =>
      rw [hv] at h
      exact .inr ⟨name, value, hv, by simpa using h⟩
  | operation l op r s ihl ihr =>
    rw [fill, references_operation] at h
    exact (List.mem_append.mp h).elim ihl ihr
  | deferred l op r s ihl ihr =>
    rw [fill, references_deferred] at h
    exact (List.mem_append.mp h).elim ihl ihr
  | call site args s ih =>
    rw [fill, references_call, fillEach_eq_map, List.flatMap_map] at h
    obtain ⟨a, ha, h⟩ := List.mem_flatMap.mp h
    exact ih a ha h
  | list items s ih =>
    rw [fill, references_list, fillEach_eq_map, List.flatMap_map] at h
    obtain ⟨a, ha, h⟩ := List.mem_flatMap.mp h
    exact ih a ha h

end Expr

/-- Bindings are given as a list, one after the other, or first as a list and then one after the other. -/
theorem substitution_is_simultaneous (collected added : List (String × Expr)) :
    let bindings : Bindings := added.foldl (fun t b => t.insert b.1 b.2) (.ofList collected)
    let value? (name : String) : Option Expr := (collected ++ added).reverse.lookup name
    (∀ trees : List Expr, (trees.mapM (substitution bindings).visit).run 0 =
      (trees.map (Expr.fill value?), (trees.flatMap Expr.references).countP fun name => (value? name).isSome)) ∧
    ((∀ name value, value? name = some value → ∀ other ∈ value.references, value? other = none) →
      ∀ (e : Expr) (n : Nat), ((substitution bindings).visit (e.fill value?)).run n = (e.fill value?, n)) := by
  intro bindings value?
  have hfind : bindings.find? = value? := by
    funext name
    change (added.foldl (fun t b => t.insert b.1 b.2) (Table.ofList collected)).find? name =
      (collected ++ added).reverse.lookup name
    rw [Table.find?_foldl_insert, Table.find?_ofList, List.reverse_append, List.lookup_append]
  have hcontains : bindings.contains = fun name => (value? name).isSome := by
    funext name
    rw [Table.contains, hfind]
  constructor
  · intro trees
    rw [Expr.run_mapM_substitution, hfind, hcontains, Nat.zero_add]
  · intro h e n
    have hunbound : ∀ other ∈ (e.fill value?).references, value? other = none := by
      intro other hother
      rcases Expr.mem_references_fill hother with hnone | ⟨name, value, hvalue, hmem⟩
      · exact hnone
      · exact h name value hvalue other hmem
    have hcount : (e.fill value?).references.countP (fun name => (value? name).isSome) = 0 := by
      refine List.countP_eq_zero.mpr fun name hname => ?_
      rw [hunbound name hname]
      exact Bool.false_ne_true
    rw [Expr.run_substitution, hfind, hcontains, Expr.fill_of_unbound hunbound, hcount, Nat.add_zero]

/-- The value that counts for the first variable is the last one, and it does not refer to it. -/
theorem substitution_is_simultaneous_of_duplicates :
    let word : Expr := .atom (.keyword "x") ⟨0, 1⟩
    let collected := [("a", Expr.reference "a" ⟨2, 4⟩), ("c", .reference "d" ⟨5, 7⟩)]
    let bindings : Bindings := [("a", word)].foldl (fun t b => t.insert b.1 b.2) (.ofList collected)
    let e : Expr := .list [.reference "a" ⟨8, 10⟩,
      .deferred (.reference "c" ⟨11, 13⟩) .add (.reference "b" ⟨14, 16⟩) ⟨11, 16⟩] ⟨8, 16⟩
    let e' : Expr := .list [.atom (.keyword "x") ⟨8, 10⟩,
      .deferred (.reference "d" ⟨11, 13⟩) .add (.reference "b" ⟨14, 16⟩) ⟨11, 16⟩] ⟨8, 16⟩
    ([e, e].mapM (substitution bindings).visit).run 0 = ([e', e'], 4) ∧
      ((substitution bindings).visit e').run 4 = (e', 4) := by
  intro word collected bindings e e'
  have hlast : ∀ name value, (collected ++ [("a", word)]).reverse.lookup name = some value →
      value = word ∨ value = .reference "d" ⟨5, 7⟩ := by
    intro name value hvalue
    change ([("a", word), ("c", .reference "d" ⟨5, 7⟩), ("a", .reference "a" ⟨2, 4⟩)]).lookup name =
      some value at hvalue
    by_cases ha : name = "a"
    · subst ha
      exact .inl (Option.some.inj hvalue).symm
    · by_cases hc : name = "c"
      · subst hc
        exact .inr (Option.some.inj hvalue).symm
      · simp only [List.lookup_cons, beq_false_of_ne ha, beq_false_of_ne hc] at hvalue
        cases hvalue
  have h := substitution_is_simultaneous collected [("a", word)]
  refine ⟨h.1 [e, e], h.2 (fun name value hvalue other hother => ?_) e 4⟩
  rcases hlast name value hvalue with rfl | rfl
  · cases hother
  · obtain rfl := List.mem_singleton.mp hother
    rfl

end StyleValue
