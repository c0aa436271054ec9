import StyleValue.Proofs.Compression

set_option autoImplicit false

namespace StyleValue

/-- The first text is the second one with characters left out. -/
def Abridges (short long : String) : Prop := short.toList.Sublist long.toList

namespace Abridges

theorem refl (s : String) : Abridges s s := List.Sublist.refl s.toList

theorem empty (s : String) : Abridges "" s := List.nil_sublist s.toList

theorem append {s t s' t' : String} (h : Abridges s s') (h' : Abridges t t') : Abridges (s ++ t) (s' ++ t') := by
  rw [Abridges, String.toList_append, String.toList_append]
  exact List.Sublist.append h h'

theorem length_le {s t : String} (h : Abridges s t) : s.length ≤ t.length := by
  rw [← String.length_toList, ← String.length_toList]
  exact List.Sublist.length_le h

theorem behind {sep sep' : String} (hsep : Abridges sep sep') {texts texts' : List String}
    (h : List.Forall₂ Abridges texts texts') : Abridges (Css.behind sep texts) (Css.behind sep' texts') := by
  induction h with
  | nil => exact refl ""
  | cons hfirst _ ih => exact (hsep.append hfirst).append ih

theorem joined {sep sep' : String} (hsep : Abridges sep sep') {texts texts' : List String}
    (h : List.Forall₂ Abridges texts texts') : Abridges (Css.joined sep texts) (Css.joined sep' texts') := by
  cases h with
  | nil => exact refl ""
  | cons hfirst hrest => exact hfirst.append (hsep.behind hrest)

theorem join {texts texts' : List String} (h : List.Forall₂ Abridges texts texts') :
    Abridges (String.join texts) (String.join texts') := by
  induction h with
  | nil => exact refl ""
  | cons hfirst _ ih =>
    rw [String.join_cons, String.join_cons]
    exact hfirst.append ih

end Abridges

namespace Decimal

theorem shortened_sublist (cs : List Char) : (shortened cs).Sublist cs := by
  unfold shortened
  split
  · exact .cons _ (.refl _)
  · exact .cons_cons _ (.cons _ (.refl _))
  · exact .refl _

theorem text_abridges (x : Float) : Abridges (text x true) (text x false) := by
  rw [Abridges, text, text, String.toList_ofList, String.toList_ofList]
  exact shortened_sublist _

end Decimal

theorem Number.css_abridges (n : Number) : Abridges (n.css true) (n.css false) :=
  (Decimal.text_abridges n.value).append (.refl n.unitText)

namespace Color

theorem map_sublist_flatMap_hexByte (bytes : List Nat) :
    (bytes.map fun n => Nat.digitChar (n % 16)).Sublist (bytes.flatMap hexByte) := by
  induction bytes with
  | nil => exact .refl []
  | cons n bytes ih => exact .cons _ (.cons_cons _ ih)

theorem hex_abridges (c : Color) : Abridges (c.hex true) (c.hex false) := by
  rw [Abridges, hex, hex, String.toList_ofList, String.toList_ofList]
  refine .cons_cons _ ?_
  rw [Bool.false_and]
  split
  · exact map_sublist_flatMap_hexByte c.bytes
  · exact .refl _

end Color

section

variable {opts opts' : Options} (hon : opts.compress = true) (hoff : opts'.compress = false)
include hon hoff

theorem Options.separator_abridges : Abridges opts.separator opts'.separator := by
  rw [separator, separator, hon, hoff]
  exact (Abridges.refl ",").append (.empty " ")

theorem Color.css_abridges (c : Color) : Abridges (c.css opts) (c.css opts') := by
  unfold css
  split
  · refine .append (.append (.append (.refl _) (.join ?_)) (.refl _)) (.refl _)
    rw [List.forall₂_map_left_iff, List.forall₂_map_right_iff, List.forall₂_same]
    exact fun n _ => (Abridges.refl _).append (Options.separator_abridges hon hoff)
  · rw [hon, hoff]
    exact c.hex_abridges

theorem Atom.css_abridges (v : Atom) : Abridges (v.css opts) (v.css opts') := by
  cases v with
  | number n =>
    rw [css, css, hon, hoff]
    exact n.css_abridges
  | color c => exact c.css_abridges hon hoff
  | keyword w => exact .refl w
  | quoted q => exact .refl _
  | text t => exact .refl t

theorem Expr.css_abridges (e : Expr) : Abridges (e.css opts) (e.css opts') := by
  have heach {es : List Expr} (ih : ∀ e ∈ es, Abridges (e.css opts) (e.css opts')) :
      List.Forall₂ Abridges (cssEach opts es) (cssEach opts' es) := by
    rw [cssEach_eq_map, cssEach_eq_map]
    rw [List.forall₂_map_left_iff, List.forall₂_map_right_iff, List.forall₂_same]
    exact ih
  have hinfix {l r : Expr} (op : Operator) (hl : Abridges (l.css opts) (l.css opts'))
      (hr : Abridges (r.css opts) (r.css opts')) :
      Abridges (l.css opts ++ " " ++ op.symbol ++ " " ++ r.css opts)
        (l.css opts' ++ " " ++ op.symbol ++ " " ++ r.css opts') :=
    (((hl.append (.refl _)).append (.refl _)).append (.refl _)).append hr
  induction e using byParts with
  | atom v s => exact v.css_abridges hon hoff
  | reference name s => exact .refl _
  | operation l op r s ihl ihr => exact hinfix op ihl ihr
  | deferred l op r s ihl ihr => exact hinfix op ihl ihr
  | call site args s ih =>
    exact .append (.append (.refl _) ((Options.separator_abridges hon hoff).joined (heach ih))) (.refl ")")
  | list items s ih => exact (Abridges.refl " ").joined (heach ih)

end

theorem compressed_text_abridges (e : Expr) (ctx ctx' : Context) : ∃ short long,
    (Eval.render e).run (ctx.withCompression true) = .value short (ctx.withCompression true) ∧
      (Eval.render e).run (ctx'.withCompression false) = .value long (ctx'.withCompression false) ∧
      Abridges short long ∧ short.length ≤ long.length := by
  have habridges : Abridges (e.css (ctx.withCompression true).options)
      (e.css (ctx'.withCompression false).options) := e.css_abridges rfl rfl
  exact ⟨_, _, Eval.run_render e _, Eval.run_render e _, habridges, habridges.length_le⟩

end StyleValue
