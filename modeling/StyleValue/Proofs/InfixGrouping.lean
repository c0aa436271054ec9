import StyleValue.Proofs.SpanErasure

/-!
Arithmetic and its infix text. The text is made of the texts of the leaves and of the operators between them.
It has no parentheses, so that it tells the operators in their order but not what each of them applies to, and
trees of different values may share it. Trees that are grouped alike and share it have one value, and trees
that are grouped as the text is commonly read are grouped alike.
-/

set_option autoImplicit false

namespace StyleValue

def Operator.rank : Operator → Nat
  | add | sub => 0
  | mul | div => 1

inductive Grouping where
  | leaf
  | node (left right : Grouping)
deriving DecidableEq, Repr

def Grouping.width : Grouping → Nat
  | leaf => 1
  | node left right => left.width + right.width

def Css.infixed : List String → List Operator → String
  | text :: texts, op :: ops => text ++ " " ++ op.symbol ++ " " ++ infixed texts ops
  | text :: _, [] => text
  | [], _ => ""

namespace Expr

def IsArithmetic : Expr → Prop
  | .atom (.number _) _ | .atom (.color _) _ => True
  | .operation l _ r _ => l.IsArithmetic ∧ r.IsArithmetic
  | _ => False

/-- What operations apply to in the end, from left to right. -/
def leaves : Expr → List Expr
  | .operation l _ r _ => l.leaves ++ r.leaves
  | e => [e]

def operators : Expr → List Operator
  | .operation l op r _ => l.operators ++ op :: r.operators
  | _ => []

def grouping : Expr → Grouping
  | .operation l _ r _ => .node l.grouping r.grouping
  | _ => .leaf

def rank : Expr → Nat
  | .operation _ op _ _ => op.rank
  | _ => 2

/-- Grouped as the text is read without parentheses: by rank, and within a rank from the left. -/
def IsConventional : Expr → Prop
  | .operation l op r _ => l.IsConventional ∧ r.IsConventional ∧ op.rank ≤ l.rank ∧ op.rank < r.rank
  | _ => True

theorem length_leaves (e : Expr) : e.leaves.length = e.grouping.width := by
  induction e using byParts with
  | operation l op r s ihl ihr => simp [leaves, grouping, Grouping.width, ihl, ihr]
  | _ => rfl

theorem length_operators (e : Expr) : e.operators.length + 1 = e.grouping.width := by
  induction e using byParts with
  | operation l op r s ihl ihr =>
    simp only [operators, grouping, Grouping.width, List.length_append, List.length_cons]
    omega
  | _ => rfl

end Expr

theorem Operator.length_symbol (op : Operator) : op.symbol.toList.length = 1 := by
  cases op <;> rfl

theorem Operator.symbol_inj {op op' : Operator} (h : op.symbol = op'.symbol) : op = op' := by
  have hread := congrArg ofSymbol? h
  rw [ofSymbol?_symbol, ofSymbol?_symbol] at hread
  exact Option.some.inj hread

theorem Operator.symbol_append_inj {op op' : Operator} {s s' : String}
    (h : op.symbol ++ s = op'.symbol ++ s') : op = op' ∧ s = s' := by
  have hlist := congrArg String.toList h
  rw [String.toList_append, String.toList_append] at hlist
  have hlength : op.symbol.toList.length = op'.symbol.toList.length := by
    rw [length_symbol, length_symbol]
  obtain ⟨hsymbol, hrest⟩ := List.append_inj hlist hlength
  exact ⟨symbol_inj (String.toList_inj.mp hsymbol), String.toList_inj.mp hrest⟩

namespace Css

theorem infixed_append {texts : List String} {ops : List Operator} (h : texts.length = ops.length + 1)
    (op : Operator) (texts' : List String) (ops' : List Operator) :
    infixed (texts ++ texts') (ops ++ op :: ops') =
      infixed texts ops ++ " " ++ op.symbol ++ " " ++ infixed texts' ops' := by
  induction ops generalizing texts with
  | nil =>
    obtain ⟨text, rfl⟩ := List.length_eq_one_iff.mp h
    rfl
  | cons first ops ih =>
    match texts with
    | text :: texts =>
      have hlength : texts.length = ops.length + 1 := by simpa using h
      simp only [List.cons_append, infixed, ih hlength, String.append_assoc]

theorem infixed_inj {texts : List String} {ops ops' : List Operator} (h : ops.length + 1 = texts.length)
    (h' : ops'.length + 1 = texts.length) (heq : infixed texts ops = infixed texts ops') : ops = ops' := by
  induction texts generalizing ops ops' with
  | nil => simp at h
  | cons text texts ih =>
    match ops, ops' with
    | [], [] => rfl
    | [], op' :: ops' | op' :: ops', [] =>
      simp only [List.length_cons, List.length_nil] at h h'
      omega
    | op :: ops, op' :: ops' =>
      simp only [infixed, String.append_assoc, String.append_right_inj] at heq
      obtain ⟨rfl, hrest⟩ := Operator.symbol_append_inj heq
      rw [ih (by simpa using h) (by simpa using h') ((String.append_right_inj _).mp hrest)]

end Css

namespace Expr

theorem css_eq_infixed (opts : Options) (e : Expr) :
    e.css opts = Css.infixed (e.leaves.map (css opts)) e.operators := by
  induction e using byParts with
  | operation l op r s ihl ihr =>
    have hlength : (l.leaves.map (css opts)).length = l.operators.length + 1 := by
      rw [List.length_map, length_leaves, length_operators]
    rw [leaves, operators, List.map_append, Css.infixed_append hlength, ← ihl, ← ihr, css]
  | _ => rfl

/-- Over the same leaves, the text is the same if and only if the operators are. -/
theorem css_eq_iff {e e' : Expr} (hleaves : e.leaves = e'.leaves) (opts : Options) :
    e.css opts = e'.css opts ↔ e.operators = e'.operators := by
  rw [css_eq_infixed, css_eq_infixed, hleaves]
  refine ⟨fun h => Css.infixed_inj ?_ ?_ h, fun h => by rw [h]⟩
  · rw [length_operators, List.length_map, ← hleaves, length_leaves]
  · rw [length_operators, List.length_map, length_leaves]

theorem cssEach_map_suppress {opts : Options} {es : List Expr}
    (h : ∀ e ∈ es, e.suppress.css opts = e.css opts) :
    cssEach opts (es.map suppress) = cssEach opts es := by
  rw [cssEach_eq_map, cssEach_eq_map, List.map_map]
  exact List.map_congr_left h

theorem css_suppress (opts : Options) (e : Expr) : e.suppress.css opts = e.css opts := by
  induction e using byParts with
  | call site args s ih => rw [suppress_call, css, css, cssEach_map_suppress ih]
  | list items s ih => rw [suppress_list, css, css, cssEach_map_suppress ih]
  | _ => rfl

theorem rank_le_of_mem {e : Expr} (he : e.IsConventional) {op : Operator} (hop : op ∈ e.operators) :
    e.rank ≤ op.rank := by
  induction e using byParts with
  | operation l root r s ihl ihr =>
    obtain ⟨hl, hr, hleft, hright⟩ := he
    change root.rank ≤ op.rank
    rcases List.mem_append.mp hop with hop | hop
    · exact hleft.trans (ihl hl hop)
    · rcases List.mem_cons.mp hop with rfl | hop
      · exact Nat.le_refl _
      · exact hright.le.trans (ihr hr hop)
  | _ => simp [operators] at hop

theorem root_rank {l r : Expr} {op : Operator} {s : Span} (h : (operation l op r s).IsConventional) :
    (∀ o ∈ l.operators, op.rank ≤ o.rank) ∧ ∀ o ∈ r.operators, op.rank < o.rank := by
  obtain ⟨hl, hr, hleft, hright⟩ := h
  exact ⟨fun o ho => hleft.trans (rank_le_of_mem hl ho), fun o ho => hright.trans_le (rank_le_of_mem hr ho)⟩

theorem nil_of_roots {middle after after' : List Operator} {root root' : Operator}
    (hafter : ∀ op ∈ after, root.rank < op.rank) (hmiddle : ∀ op ∈ middle, root'.rank ≤ op.rank)
    (h : root :: after = middle ++ root' :: after') : middle = [] := by
  cases middle with
  | nil => rfl
  | cons first middle =>
    -- `root` would be in the middle and `root'` after it, and their ranks would exclude each other.
    obtain ⟨rfl, rfl⟩ := List.cons.inj h
    have hle := hmiddle root (by simp)
    have hlt := hafter root' (by simp)
    omega

/-- The root is the last operator of the least rank. -/
theorem split_at_root {before before' after after' : List Operator} {root root' : Operator}
    (hroot : (∀ op ∈ before, root.rank ≤ op.rank) ∧ ∀ op ∈ after, root.rank < op.rank)
    (hroot' : (∀ op ∈ before', root'.rank ≤ op.rank) ∧ ∀ op ∈ after', root'.rank < op.rank)
    (h : before ++ root :: after = before' ++ root' :: after') : before = before' ∧ after = after' := by
  rcases List.append_eq_append_iff.mp h with ⟨middle, rfl, hmiddle⟩ | ⟨middle, rfl, hmiddle⟩
  · obtain rfl := nil_of_roots hroot.2 (fun op hop => hroot'.1 op (by simp [hop])) hmiddle
    simp_all
  · obtain rfl := nil_of_roots hroot'.2 (fun op hop => hroot.1 op (by simp [hop])) hmiddle
    simp_all

theorem grouping_eq_of_operators {e e' : Expr} (he : e.IsConventional) (he' : e'.IsConventional)
    (h : e.operators = e'.operators) : e.grouping = e'.grouping := by
  induction e using byParts generalizing e' with
  | operation l op r s ihl ihr =>
    cases e' with
    | operation l' op' r' s' =>
      obtain ⟨hleft, hright⟩ := split_at_root (root_rank he) (root_rank he') h
      rw [grouping, grouping, ihl he.1 he'.1 hleft, ihr he.2.1 he'.2.1 hright]
    | _ => simp [operators] at h
  | _ =>
    cases e' with
    | operation l' op' r' s' => simp [operators] at h
    | _ => rfl

theorem eraseSpans_eq_of_grouping {e e' : Expr} (he : e.IsArithmetic) (he' : e'.IsArithmetic)
    (hleaves : e.leaves = e'.leaves) (hoperators : e.operators = e'.operators)
    (hgrouping : e.grouping = e'.grouping) : e.eraseSpans = e'.eraseSpans := by
  induction e using byParts generalizing e' with
  | operation l op r s ihl ihr =>
    cases e' with
    | operation l' op' r' s' =>
      -- The grouping tells how many of the leaves and operators belong to the left.
      obtain ⟨hl, hr⟩ := Grouping.node.inj hgrouping
      have hwidth : l.leaves.length = l'.leaves.length := by rw [length_leaves, length_leaves, hl]
      have hcount : l.operators.length = l'.operators.length := by
        have h := l.length_operators
        have h' := l'.length_operators
        rw [hl] at h
        omega
      obtain ⟨hleavesL, hleavesR⟩ := List.append_inj hleaves hwidth
      obtain ⟨hopsL, hops⟩ := List.append_inj hoperators hcount
      obtain ⟨rfl, hopsR⟩ := List.cons.inj hops
      have hleft : l.eraseSpans = l'.eraseSpans := ihl he.1 he'.1 hleavesL hopsL hl
      have hright : r.eraseSpans = r'.eraseSpans := ihr he.2 he'.2 hleavesR hopsR hr
      change Expr.operation l.eraseSpans op r.eraseSpans .nowhere = .operation l'.eraseSpans op r'.eraseSpans _
      rw [hleft, hright]
    | _ => cases hgrouping
  | atom v s =>
    cases e' with
    | atom v' s' =>
      obtain ⟨rfl, -⟩ : v = v' ∧ s = s' := by simpa [leaves] using hleaves
      rfl
    | operation l' op' r' s' => cases hgrouping
    | _ => cases he'
  | _ => cases he

theorem IsArithmetic.evaluate_eq {e : Expr} (he : e.IsArithmetic) (lib lib' : Library) (depth : Nat) :
    e.evaluate lib depth = e.evaluate lib' depth := by
  induction e using byParts generalizing depth with
  | operation l op r s ihl ihr =>
    cases depth with
    | zero => rfl
    | succ depth =>
      change Eval.operate (evaluate lib depth) l op r s = Eval.operate (evaluate lib' depth) l op r s
      rw [Eval.operate, Eval.operate, ihl he.1 depth, ihr he.2 depth]
  | atom v s => cases depth <;> rfl
  | _ => cases he

theorem IsArithmetic.yields {e : Expr} (he : e.IsArithmetic) {lib : Library} (lib' : Library)
    {ctx : Context} {r : Except Fault Expr} (h : e.Yields lib ctx r) : e.Yields lib' ctx r := by
  obtain ⟨least, hrun⟩ := h
  exact ⟨least, fun depth hle => by rw [he.evaluate_eq lib' lib, hrun depth hle]⟩

end Expr

theorem Library.Standard.agree_of_eraseSpans_eq {lib : Library} (h : lib.Standard) {e e' : Expr}
    (heq : e.eraseSpans = e'.eraseSpans) (ctx : Context) :
    ∃ r r', e.Yields lib ctx r ∧ e'.Yields lib ctx r' ∧ AgreeUpToSpans r r' := by
  obtain ⟨r, r', q, hr, hr', hq, hq'⟩ := h.exists_erased_result rfl rfl (.refl ctx.scopes) heq
  exact ⟨r, r', hr, hr', agreeUpToSpans_of_mapped hq hq' (.inl rfl)⟩

theorem infix_text_tells_grouped_value {e e' : Expr} (he : e.IsArithmetic) (he' : e'.IsArithmetic)
    (hleaves : e.leaves = e'.leaves) {ctx : Context} {text : String}
    (htext : (Eval.render e).run ctx = .value text ctx)
    (htext' : (Eval.render e').run ctx = .value text ctx) :
    (Eval.render e.suppress).run ctx = .value text ctx ∧ e.operators = e'.operators ∧
      (e.IsConventional → e'.IsConventional → e.grouping = e'.grouping) ∧
      (e.grouping = e'.grouping → ∀ (lib : Library) (ctx' : Context),
        ∃ r r', e.Yields lib ctx' r ∧ e'.Yields lib ctx' r' ∧ AgreeUpToSpans r r') := by
  have hcss := Eval.css_of_run_render htext
  have hcss' := Eval.css_of_run_render htext'
  have hoperators := (Expr.css_eq_iff hleaves ctx.options).mp (hcss.trans hcss'.symm)
  refine ⟨?_, hoperators, fun hc hc' => Expr.grouping_eq_of_operators hc hc' hoperators, ?_⟩
  · rw [Eval.run_render, Expr.css_suppress, hcss]
  · intro hgrouping lib ctx'
    have herase := Expr.eraseSpans_eq_of_grouping he he' hleaves hoperators hgrouping
    -- No function is called, so that the empty library stands for any.
    have hempty : Library.empty.Standard := .inl rfl
    obtain ⟨r, r', hr, hr', hagree⟩ := hempty.agree_of_eraseSpans_eq herase ctx'
    exact ⟨r, r', he.yields lib hr, he'.yields lib hr', hagree⟩

/-- A sum with a product of a color in it, at two places. -/
theorem infix_text_tells_grouped_value_of_layers :
    let one : Expr := .atom (.number ⟨1, some "px"⟩) ⟨0, 3⟩
    let shade : Expr := .atom (.color ⟨1, 2, 3, 1⟩) ⟨6, 13⟩
    let tree (s : Span) : Expr := .operation (.operation one .add (.operation shade .mul one s) s) .sub one s
    ∃ r r', (tree ⟨0, 20⟩).Yields .builtin {} r ∧ (tree ⟨30, 50⟩).Yields .builtin {} r' ∧
      AgreeUpToSpans r r' := by
  intro one shade tree
  have harithmetic (s : Span) : (tree s).IsArithmetic := ⟨⟨trivial, trivial, trivial⟩, trivial⟩
  have hconventional (s : Span) : (tree s).IsConventional := by
    simp [tree, one, shade, Expr.IsConventional, Expr.rank, Operator.rank]
  obtain ⟨-, -, hgrouping, hvalue⟩ := infix_text_tells_grouped_value (harithmetic ⟨0, 20⟩)
    (harithmetic ⟨30, 50⟩) rfl (Eval.run_render _ {}) (Eval.run_render _ {})
  exact hvalue (hgrouping (hconventional _) (hconventional _)) .builtin {}

/-- One minus one minus one, grouped from the left and from the right. -/
theorem infix_text_hides_grouping :
    let one : Expr := .atom (.number ⟨1, none⟩) .nowhere
    let left : Expr := .operate (.operate one .sub one) .sub one
    let right : Expr := .operate one .sub (.operate one .sub one)
    left.IsArithmetic ∧ right.IsArithmetic ∧ left.leaves = right.leaves ∧
      (∀ ctx, (Eval.render left).run ctx = (Eval.render right).run ctx) ∧
      ∃ r r', left.Yields .builtin {} r ∧ right.Yields .builtin {} r' ∧ ¬ AgreeUpToSpans r r' := by
  intro one left right
  refine ⟨⟨⟨trivial, trivial⟩, trivial⟩, ⟨trivial, trivial, trivial⟩, rfl, fun ctx => ?_, ?_⟩
  · have hleaves : left.leaves = right.leaves := rfl
    have hcss := (Expr.css_eq_iff hleaves ctx.options).mpr rfl
    rw [Eval.run_render, Eval.run_render, hcss]
  · refine ⟨.ok (.atom (.number ⟨1 - 1 - 1, none⟩) .nowhere), .ok (.atom (.number ⟨1 - (1 - 1), none⟩) .nowhere),
      ⟨3, fun | _ + 3, _ => rfl⟩, ⟨3, fun | _ + 3, _ => rfl⟩, fun hagree => ?_⟩
    have hvalue : (1 - 1 - 1 : Float) = 1 - (1 - 1) :=
      congrArg Number.value (Option.some.inj (congrArg Expr.number? hagree))
    have hnegative : (1 - 1 - 1 : Float) < 0 := by decide +kernel
    rw [hvalue] at hnegative
    exact absurd hnegative (by decide +kernel)

end StyleValue
