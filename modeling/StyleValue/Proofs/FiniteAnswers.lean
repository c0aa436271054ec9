import StyleValue.Proofs.FiniteQuotients
import StyleValue.Proofs.StepValues

set_option autoImplicit false

namespace StyleValue

def Color.Finite (c : Color) : Prop :=
  c.red.isFinite = true ∧ c.green.isFinite = true ∧ c.blue.isFinite = true ∧ c.alpha.isFinite = true

instance : DecidablePred Color.Finite := fun _ => inferInstanceAs (Decidable (_ ∧ _ ∧ _ ∧ _))

def Atom.Finite : Atom → Prop
  | .number n => n.value.isFinite = true
  | .color c => c.Finite
  | .keyword _ | .quoted _ | .text _ => True

instance : DecidablePred Atom.Finite
  | .number n => inferInstanceAs (Decidable (n.value.isFinite = true))
  | .color c => inferInstanceAs (Decidable c.Finite)
  | .keyword _ | .quoted _ | .text _ => inferInstanceAs (Decidable True)

namespace Expr

mutual

def atoms : Expr → List Atom
  | .atom v _ => [v]
  | .reference _ _ => []
  | .operation l _ r _ | .deferred l _ r _ => l.atoms ++ r.atoms
  | .call _ args _ => atomsEach args
  | .list items _ => atomsEach items

def atomsEach : List Expr → List Atom
  | [] => []
  | e :: es => e.atoms ++ atomsEach es

end

def Finite (e : Expr) : Prop := ∀ v ∈ e.atoms, v.Finite

instance : DecidablePred Expr.Finite := fun e => inferInstanceAs (Decidable (∀ v ∈ e.atoms, v.Finite))

theorem mem_atomsEach {v : Atom} {es : List Expr} : v ∈ atomsEach es ↔ ∃ e ∈ es, v ∈ e.atoms := by
  induction es with
  | nil => simp [atomsEach]
  | cons e es ih => simp [atomsEach, ih]

theorem atomsEach_map_suppress {es : List Expr} (h : ∀ e ∈ es, e.suppress.atoms = e.atoms) :
    atomsEach (es.map suppress) = atomsEach es := by
  induction es with
  | nil => rfl
  | cons e es ih =>
    rw [List.map_cons, atomsEach, atomsEach, h e List.mem_cons_self,
      ih fun x hx => h x (List.mem_cons_of_mem e hx)]

theorem atoms_suppress (e : Expr) : e.suppress.atoms = e.atoms := by
  induction e using byParts with
  | atom v s => rfl
  | reference name s => rfl
  | operation l op r s => rfl
  | deferred l op r s => rfl
  | call site args s ih => rw [suppress_call, atoms, atoms, atomsEach_map_suppress ih]
  | list items s ih => rw [suppress_list, atoms, atoms, atomsEach_map_suppress ih]

theorem atoms_relocate (s : Span) (e : Expr) : (e.relocate s).atoms = e.atoms := by
  cases e <;> rfl

theorem finite_atom {v : Atom} {s : Span} : (atom v s).Finite ↔ v.Finite := by
  simp [Finite, atoms]

theorem finite_list {items : List Expr} {s : Span} : (list items s).Finite ↔ ∀ x ∈ items, x.Finite := by
  simp only [Finite, atoms, mem_atomsEach]
  exact ⟨fun h x hx v hv => h v ⟨x, hx, hv⟩, fun h v ⟨x, hx, hv⟩ => h x hx v hv⟩

theorem Finite.relocate {e : Expr} (h : e.Finite) (s : Span) : (e.relocate s).Finite := by
  rwa [Finite, atoms_relocate]

theorem Finite.operand {strict : Bool} {e x : Expr} (h : e.Finite) (hx : x ∈ e.operands strict) :
    x.Finite := by
  obtain ⟨a, ha, hx⟩ := exists_operand hx
  have hsame : x.atoms = a.atoms := by
    rcases hx with rfl | rfl
    · rfl
    · exact atoms_suppress a
  intro v hv
  rw [hsame] at hv
  refine h v ?_
  cases e with
  | atom v s => cases ha
  | reference name s => cases ha
  | deferred l op r s => cases ha
  | operation l op r s =>
    rw [atoms, List.mem_append]
    rcases List.mem_pair.mp ha with rfl | rfl
    · exact .inl hv
    · exact .inr hv
  | call site args s => exact mem_atomsEach.mpr ⟨a, ha, hv⟩
  | list items s => exact mem_atomsEach.mpr ⟨a, ha, hv⟩

theorem exists_of_number? {e : Expr} {n : Number} (h : e.number? = some n) :
    ∃ s, e = .atom (.number n) s := by
  unfold number? at h
  split at h
  · next s =>
    cases h
    exact ⟨s, rfl⟩
  · cases h

theorem exists_of_color? {e : Expr} {c : Color} (h : e.color? = some c) :
    ∃ s, e = .atom (.color c) s := by
  unfold color? at h
  split at h
  · next s =>
    cases h
    exact ⟨s, rfl⟩
  · cases h

end Expr

theorem requireFinite_finite (operation : String) (x : Float) :
    Returns (fun y => y.isFinite = true) (requireFinite operation x) :=
  .ite (fun h => .ok h) fun _ => .error _

theorem Operator.apply_finite (op : Operator) (a b : Float) :
    Returns (fun y => y.isFinite = true) (op.apply a b) :=
  .ite (fun _ => .error _) fun _ => requireFinite_finite _ _

theorem Number.combine_finite (op : Operator) (a b : Number) :
    Returns (fun n => n.value.isFinite = true) (a.combine op b) :=
  .bind (op.apply_finite _ _) fun _ hx => .ok hx

theorem Color.combine_finite_iff (op : Operator) (a b : Color) :
    Returns (fun c => c.Finite ↔ (a.alpha * (1 - b.alpha) + b.alpha).isFinite = true)
      (a.combine op b) := by
  refine .bind (op.apply_finite a.red b.red) fun red hred => ?_
  refine .bind (op.apply_finite a.green b.green) fun green hgreen => ?_
  refine .bind (op.apply_finite a.blue b.blue) fun blue hblue => .ok ?_
  exact ⟨fun h => h.2.2.2, fun halpha => ⟨hred, hgreen, hblue, halpha⟩⟩

theorem Color.scale_finite (op : Operator) (c : Color) (x : Float) (hc : c.alpha.isFinite = true) :
    Returns Color.Finite (c.scale op x) := by
  refine .bind (op.apply_finite c.red x) fun red hred => ?_
  refine .bind (op.apply_finite c.green x) fun green hgreen => ?_
  refine .bind (op.apply_finite c.blue x) fun blue hblue => .ok ?_
  exact ⟨hred, hgreen, hblue, hc⟩

/-- The operands are colors, and the composition of their alphas is not finite. -/
def Expr.AlphaOverflows : Expr → Expr → Prop
  | .atom (.color a) _, .atom (.color b) _ => ¬ (a.alpha * (1 - b.alpha) + b.alpha).isFinite = true
  | _, _ => False

theorem Expr.combine_finite_iff {l r : Expr} (hl : l.Finite) (hr : r.Finite) (op : Operator) :
    Returns (fun v => v.Finite ↔ ¬ l.AlphaOverflows r) (l.combine op r) := by
  unfold Expr.combine
  split
  · exact .map (Number.combine_finite op _ _) fun n hn => iff_of_true hn id
  · exact .map (Color.combine_finite_iff op _ _) fun c hc => hc.trans not_not.symm
  · next a _ b _ =>
    have ha : a.Finite := finite_atom.mp hl
    exact .map (Color.scale_finite op _ _ ha.2.2.2) fun c hc => iff_of_true hc id
  · next a _ b _ =>
    have hb : b.Finite := finite_atom.mp hr
    refine .ite (fun _ => ?_) fun _ => .error _
    exact .map (Color.scale_finite op _ _ hb.2.2.2) fun c hc => iff_of_true hc id
  · exact .error _

namespace Invocation

variable {inv : Invocation}

/-- The argument is a percentage, and 255 times its value is not finite. -/
def PartOverflows (inv : Invocation) (index : Nat) : Prop :=
  ∃ n s, inv.args[index]? = some (.atom (.number n) s) ∧ n.unitText = "%" ∧
    ¬ (n.value * 255).isFinite = true

theorem partOverflows_iff {index : Nat} {n : Number} {s : Span}
    (h : inv.args[index]? = some (.atom (.number n) s)) :
    inv.PartOverflows index ↔ n.unitText = "%" ∧ ¬ (n.value * 255).isFinite = true := by
  constructor
  · rintro ⟨n', s', h', hoverflow⟩
    cases h.symm.trans h'
    exact hoverflow
  · exact fun hoverflow => ⟨n, s, h, hoverflow⟩

theorem finite_finite (inv : Invocation) (x : Float) :
    Returns (fun y => y.isFinite = true) (inv.finite x) :=
  .ite (fun h => .ok h) fun _ => .error _

theorem read_of_arg {α : Type} (inv : Invocation) (expected : String) (view : Expr → Option α) (index : Nat) :
    Returns (fun a => ∃ e, inv.args[index]? = some e ∧ view e = some a) (inv.read expected view index) := by
  unfold read
  split
  · next a ha => exact .ok (Option.bind_eq_some_iff.mp ha)
  · exact .error _

theorem number_of_arg (inv : Invocation) (index : Nat) :
    Returns (fun n => ∃ s, inv.args[index]? = some (.atom (.number n) s)) (inv.number index) := by
  intro n hn
  obtain ⟨e, he, hview⟩ := inv.read_of_arg "number" Expr.number? index n hn
  obtain ⟨s, rfl⟩ := Expr.exists_of_number? hview
  exact ⟨s, he⟩

variable (hargs : ∀ e ∈ inv.args, e.Finite)
include hargs

theorem number_finite (index : Nat) :
    Returns (fun n => n.value.isFinite = true) (inv.number index) := by
  intro n hn
  obtain ⟨s, hs⟩ := inv.number_of_arg index n hn
  exact Expr.finite_atom.mp (hargs _ (List.mem_of_getElem? hs))

theorem color_finite (index : Nat) : Returns Color.Finite (inv.color index) := by
  intro c hc
  obtain ⟨e, he, hview⟩ := inv.read_of_arg "color" Expr.color? index c hc
  obtain ⟨s, rfl⟩ := Expr.exists_of_color? hview
  exact Expr.finite_atom.mp (hargs _ (List.mem_of_getElem? he))

end Invocation

namespace Library

variable {inv : Invocation} (hargs : ∀ e ∈ inv.args, e.Finite)
include hargs

theorem channel_finite_iff (index : Nat) :
    Returns (fun x => x.isFinite = true ↔ ¬ inv.PartOverflows index) (channel inv index) := by
  refine .bind (inv.number_of_arg index) ?_
  rintro n ⟨s, hs⟩
  have hn : n.value.isFinite = true := Expr.finite_atom.mp (hargs _ (List.mem_of_getElem? hs))
  refine .ok ?_
  rw [Invocation.partOverflows_iff hs]
  split
  · next hpercent => simp [FiniteQuotients.isFinite_div_hundred, hpercent]
  · next hpercent => simp [hn, hpercent]

theorem alpha_finite (index : Nat) : Returns (fun x => x.isFinite = true) (alpha inv index) := by
  refine .bind (Invocation.number_finite hargs index) fun n hn => .ok ?_
  split
  · exact (FiniteQuotients.isFinite_div_hundred n.value).mpr hn
  · exact hn

theorem chooseFrom_finite (prefer : Float → Float → Bool) (count : Nat) {index : Nat} {best : Number}
    {unit : Option String} (hbest : best.value.isFinite = true) :
    Returns (fun n => n.value.isFinite = true) (chooseFrom inv prefer count index best unit) := by
  induction count generalizing index best unit with
  | zero => exact .ok hbest
  | succ count ih =>
    refine .bind (Invocation.number_finite hargs index) fun candidate hcandidate =>
      .after fun unit' => ih ?_
    split
    · exact hcandidate
    · exact hbest

theorem choose_finite (prefer : Float → Float → Bool) : Returns Expr.Finite (choose prefer inv) := by
  refine .after fun _ => .bind (Invocation.number_finite hargs 0) fun first hfirst => ?_
  refine .bind (chooseFrom_finite hargs prefer _ hfirst) fun best hbest => ?_
  exact .ok (Expr.finite_atom.mpr hbest)

end Library

/-- The function makes a color of the first three arguments, and one of these is a percentage that is too
large. -/
def Builtin.ChannelOverflows (b : Builtin) (inv : Invocation) : Prop :=
  (b = .rgb ∨ b = .rgba ∧ inv.args.length ≠ 2) ∧ ∃ index ∈ [0, 1, 2], inv.PartOverflows index

theorem Builtin.finite_of_channels_iff {b : Builtin} {inv : Invocation}
    (hb : b = .rgb ∨ b = .rgba ∧ inv.args.length ≠ 2) {c : Color}
    (hred : c.red.isFinite = true ↔ ¬ inv.PartOverflows 0)
    (hgreen : c.green.isFinite = true ↔ ¬ inv.PartOverflows 1)
    (hblue : c.blue.isFinite = true ↔ ¬ inv.PartOverflows 2) (halpha : c.alpha.isFinite = true) :
    (inv.answer (.color c)).Finite ↔ ¬ b.ChannelOverflows inv := by
  have hoverflows : b.ChannelOverflows inv ↔
      inv.PartOverflows 0 ∨ inv.PartOverflows 1 ∨ inv.PartOverflows 2 := by
    simp [ChannelOverflows, hb]
  rw [hoverflows, not_or, not_or, ← hred, ← hgreen, ← hblue]
  exact Expr.finite_atom.trans ⟨fun h => ⟨h.1, h.2.1, h.2.2.1⟩, fun h => ⟨h.1, h.2.1, h.2.2, halpha⟩⟩

theorem Builtin.apply_finite_iff (b : Builtin) {inv : Invocation} (hargs : ∀ e ∈ inv.args, e.Finite) :
    Returns (fun e => e.Finite ↔ ¬ b.ChannelOverflows inv) (b.apply inv) := by
  -- Every function but `rgb` and `rgba` has to answer with something finite.
  have hother {e : Expr} (hb : b ≠ .rgb ∧ b ≠ .rgba) (he : e.Finite) :
      e.Finite ↔ ¬ b.ChannelOverflows inv :=
    iff_of_true he fun h => h.1.elim hb.1 fun h => hb.2 h.1
  have hchecked {x : Float} {unit : Option String} (hb : b ≠ .rgb ∧ b ≠ .rgba) :
      Returns (fun e => e.Finite ↔ ¬ b.ChannelOverflows inv)
        (do return inv.answer (.number ⟨← inv.finite x, unit⟩)) :=
    .bind (inv.finite_finite x) fun _ hy => .ok (hother hb (Expr.finite_atom.mpr hy))
  cases b with
  | percentage => exact .after fun _ => .after fun _ => hchecked ⟨nofun, nofun⟩
  | round =>
    refine .after fun _ => .after fun _ => .ite (fun _ => ?_) fun _ => ?_
    all_goals exact .after fun _ => hchecked ⟨nofun, nofun⟩
  | ceil | floor | abs | sqrt => exact .after fun _ => .after fun _ => hchecked ⟨nofun, nofun⟩
  | min | max => exact fun e he => hother ⟨nofun, nofun⟩ (Library.choose_finite hargs _ e he)
  | unit =>
    refine .after fun _ => .bind (Invocation.number_finite hargs 0) fun n hn =>
      .ite (fun _ => ?_) fun _ => ?_
    all_goals exact .after fun _ => .ok (hother ⟨nofun, nofun⟩ (Expr.finite_atom.mpr hn))
  | rgb =>
    refine .after fun _ => .bind (Library.channel_finite_iff hargs 0) fun red hred => ?_
    refine .bind (Library.channel_finite_iff hargs 1) fun green hgreen => ?_
    refine .bind (Library.channel_finite_iff hargs 2) fun blue hblue => .ok ?_
    have hone : (1 : Float).isFinite = true := rfl
    exact finite_of_channels_iff (.inl rfl) hred hgreen hblue hone
  | rgba =>
    refine .after fun _ => .ite (fun hlength => ?_) fun hlength => ?_
    · refine .bind (Invocation.color_finite hargs 0) fun c hc => ?_
      refine .bind (Library.alpha_finite hargs 1) fun alpha halpha => .ok ?_
      refine iff_of_true (Expr.finite_atom.mpr ⟨hc.1, hc.2.1, hc.2.2.1, halpha⟩) fun h => ?_
      exact h.1.elim nofun fun h => h.2 hlength
    · refine .bind (Library.channel_finite_iff hargs 0) fun red hred => ?_
      refine .bind (Library.channel_finite_iff hargs 1) fun green hgreen => ?_
      refine .bind (Library.channel_finite_iff hargs 2) fun blue hblue => ?_
      refine .bind (Library.alpha_finite hargs 3) fun alpha halpha => .ok ?_
      exact finite_of_channels_iff (.inr ⟨rfl, hlength⟩) hred hgreen hblue halpha
  | e => exact .after fun _ => .after fun _ => .ok (hother ⟨nofun, nofun⟩ (Expr.finite_atom.mpr trivial))

end StyleValue
