import Mathlib.Data.Nat.Find
import StyleValue.Proofs.NumberChoice
import StyleValue.Proofs.StepValues

set_option autoImplicit false

namespace StyleValue

inductive ArgumentKind where
  | number
  | color
  | text
deriving DecidableEq, Repr

namespace ArgumentKind

def name : ArgumentKind → String
  | number => "number"
  | color => "color"
  | text => "string"

def kinds : ArgumentKind → List String
  | number => ["number"]
  | color => ["color"]
  | text => ["keyword", "string", "text"]

def Fits (k : ArgumentKind) (e : Expr) : Prop := e.kind ∈ k.kinds

instance (k : ArgumentKind) : DecidablePred k.Fits := fun e => inferInstanceAs (Decidable (e.kind ∈ k.kinds))

theorem fits_number_iff (e : Expr) : number.Fits e ↔ (e.number?).isSome = true := by
  rcases e with ⟨_ | _ | _ | _ | _, _⟩ | _ | _ | _ | _ | _ <;>
    simp [Fits, kinds, Expr.kind, Expr.number?]

theorem fits_color_iff (e : Expr) : color.Fits e ↔ (e.color?).isSome = true := by
  rcases e with ⟨_ | _ | _ | _ | _, _⟩ | _ | _ | _ | _ | _ <;>
    simp [Fits, kinds, Expr.kind, Expr.color?]

theorem fits_text_iff (e : Expr) : text.Fits e ↔ (e.text?).isSome = true := by
  rcases e with ⟨_ | _ | _ | _ | _, _⟩ | _ | _ | _ | _ | _ <;>
    simp [Fits, kinds, Expr.kind, Expr.text?]

end ArgumentKind

namespace Builtin

def Takes : Builtin → Nat → Prop
  | percentage, n | ceil, n | floor, n | abs, n | sqrt, n | e, n => n = 1
  | round, n | unit, n => n = 1 ∨ n = 2
  | rgb, n => n = 3
  | rgba, n => n = 2 ∨ n = 4
  | min, n | max, n => 1 ≤ n

def arity : Builtin → Arity
  | percentage | ceil | floor | abs | sqrt | e => .exactly 1
  | round | unit => .range 1 (some 2)
  | rgb => .exactly 3
  | rgba => .oneOf [2, 4]
  | min | max => .range 1 none

theorem accepts_arity_iff (b : Builtin) (n : Nat) : b.arity.accepts n = true ↔ b.Takes n := by
  cases b <;> simp [arity, Takes, Arity.accepts, Arity.exactly] <;> omega

/-- The kind of the argument at an index in a call with `count` arguments. -/
def expects (b : Builtin) (count index : Nat) : ArgumentKind :=
  match b with
  | e => .text
  | unit => if index = 1 then .text else .number
  | rgba => if count = 2 ∧ index = 0 then .color else .number
  | _ => .number

/-- What the function may still find wrong when the arguments are of the right count and kinds. -/
def Refuses (b : Builtin) (inv : Invocation) (f : Fault) : Prop :=
  b ∈ [percentage, round, ceil, floor, abs, sqrt] ∧
      f = (Cause.notFinite (inv.name ++ "()")).atSpan inv.span ∨
    b ∈ [min, max] ∧ ∃ u v, f = (Cause.unitClash inv.name u v).atSpan inv.span

end Builtin

namespace Invocation

variable {α β : Type} {inv : Invocation} {kind : Nat → ArgumentKind} {late : Fault → Prop}

/-- The leftmost argument from `index` on that is not of its kind is the one at `i`. -/
structure Misfit (inv : Invocation) (kind : Nat → ArgumentKind) (index i : Nat) (a : Expr) : Prop where
  le : index ≤ i
  arg : inv.args[i]? = some a
  not_fits : ¬ (kind i).Fits a
  before : ∀ j x, index ≤ j → j < i → inv.args[j]? = some x → (kind j).Fits x

/-- The result blames the leftmost argument from `index` on that is not of its kind. If there is none, failures
are `late`. -/
structure Checks (inv : Invocation) (kind : Nat → ArgumentKind) (late : Fault → Prop) (index : Nat)
    (r : Except Fault α) : Prop where
  misfit : ∀ i a, inv.Misfit kind index i a → r = .error (inv.mismatch i (kind i).name (some a))
  fits : (∀ j x, index ≤ j → inv.args[j]? = some x → (kind j).Fits x) → Fails late r

theorem Checks.done {index : Nat} (hlength : inv.args.length ≤ index) {r : Except Fault α}
    (hr : Fails late r) : inv.Checks kind late index r where
  misfit i a h := by
    have hlt : i < inv.args.length := (List.getElem?_eq_some_iff.mp h.arg).1
    exact absurd (Nat.lt_of_lt_of_le hlt (hlength.trans h.le)) (Nat.lt_irrefl i)
  fits _ := hr

theorem Checks.read {index : Nat} {k : ArgumentKind} {view : Expr → Option β}
    (hview : ∀ e, k.Fits e ↔ (view e).isSome = true) (hk : kind index = k) (hlt : index < inv.args.length)
    {next : β → Except Fault α} (hnext : ∀ x, inv.Checks kind late (index + 1) (next x)) :
    inv.Checks kind late index (inv.read k.name view index >>= next) := by
  have harg : inv.args[index]? = some inv.args[index] := List.getElem?_eq_getElem hlt
  generalize inv.args[index] = e at harg
  by_cases hfits : k.Fits e
  · obtain ⟨x, hx⟩ := Option.isSome_iff_exists.mp ((hview e).mp hfits)
    rw [read_of_view harg hx]
    constructor
    · intro i a h
      have hne : index ≠ i := by
        rintro rfl
        cases harg.symm.trans h.arg
        exact h.not_fits (hk ▸ hfits)
      exact (hnext x).misfit i a ⟨by have := h.le; omega, h.arg, h.not_fits,
        fun j y hj => h.before j y (by omega)⟩
    · exact fun hall => (hnext x).fits fun j y hj => hall j y (by omega)
  · have hnone : view e = none := by
      rw [← Option.not_isSome_iff_eq_none, ← hview]
      exact hfits
    rw [read_of_view_none harg hnone]
    constructor
    · intro i a h
      have hle : i ≤ index := Nat.not_lt.mp fun hlt =>
        hfits (hk ▸ h.before index e (Nat.le_refl index) hlt harg)
      obtain rfl := Nat.le_antisymm hle h.le
      cases harg.symm.trans h.arg
      rw [hk]
      rfl
    · exact fun hall => absurd (hk ▸ hall index e (Nat.le_refl index) harg) hfits

section Readers

variable {index : Nat} (hlt : index < inv.args.length)
include hlt

theorem Checks.number (hk : kind index = .number) {next : Number → Except Fault α}
    (hnext : ∀ n, inv.Checks kind late (index + 1) (next n)) :
    inv.Checks kind late index (inv.number index >>= next) :=
  .read ArgumentKind.fits_number_iff hk hlt hnext

theorem Checks.color (hk : kind index = .color) {next : Color → Except Fault α}
    (hnext : ∀ c, inv.Checks kind late (index + 1) (next c)) :
    inv.Checks kind late index (inv.color index >>= next) :=
  .read ArgumentKind.fits_color_iff hk hlt hnext

theorem Checks.text (hk : kind index = .text) {next : String → Except Fault α}
    (hnext : ∀ t, inv.Checks kind late (index + 1) (next t)) :
    inv.Checks kind late index (inv.text index >>= next) :=
  .read ArgumentKind.fits_text_iff hk hlt hnext

theorem Checks.channel (hk : kind index = .number) {next : Float → Except Fault α}
    (hnext : ∀ x, inv.Checks kind late (index + 1) (next x)) :
    inv.Checks kind late index (Library.channel inv index >>= next) := by
  rw [Library.channel, bind_assoc]
  exact .number hlt hk fun _ => hnext _

theorem Checks.alpha (hk : kind index = .number) {next : Float → Except Fault α}
    (hnext : ∀ x, inv.Checks kind late (index + 1) (next x)) :
    inv.Checks kind late index (Library.alpha inv index >>= next) := by
  rw [Library.alpha, bind_assoc]
  exact .number hlt hk fun _ => hnext _

end Readers

theorem expect_of_takes {b : Builtin} (h : b.Takes inv.args.length) : inv.expect b.arity = .ok () :=
  if_pos ((b.accepts_arity_iff _).mpr h)

theorem expect_of_not_takes {b : Builtin} (h : ¬ b.Takes inv.args.length) :
    inv.expect b.arity = .error ((Cause.arity inv.name b.arity inv.args.length).atSpan inv.span) :=
  if_neg fun haccepts => h ((b.accepts_arity_iff _).mp haccepts)

theorem Checks.expect {b : Builtin} (h : b.Takes inv.args.length) {index : Nat} {next : Except Fault α}
    (hnext : inv.Checks kind late index next) :
    inv.Checks kind late index (inv.expect b.arity >>= fun _ => next) := by
  rw [expect_of_takes h]
  exact hnext

theorem fails_of_finite {b : Builtin} (hb : b ∈ [.percentage, .round, .ceil, .floor, .abs, .sqrt]) (x : Float)
    (unit : Option String) : Fails (b.Refuses inv) (do return inv.answer (.number ⟨← inv.finite x, unit⟩)) := by
  have hx : Fails (b.Refuses inv) (inv.finite x) := .ite (.ok x) (.error (.inl ⟨hb, rfl⟩))
  exact hx.bind fun _ => .ok _

end Invocation

namespace Builtin

variable {inv : Invocation}

theorem checks_of_takes {b : Builtin} (hb : b ∉ [min, max]) (h : b.Takes inv.args.length) :
    inv.Checks (b.expects inv.args.length) (b.Refuses inv) 0 (b.apply inv) := by
  cases b with
  | percentage =>
    have hlength : inv.args.length = 1 := h
    refine .expect h (.number (by omega) rfl fun n => .done (by omega) ?_)
    exact Invocation.fails_of_finite (by simp) _ _
  | round =>
    have hlength : inv.args.length = 1 ∨ inv.args.length = 2 := h
    refine .expect h (.number (by omega) rfl fun n => ?_)
    split
    · rw [bind_map_left]
      refine .number (by omega) rfl fun places => .done (by omega) ?_
      exact Invocation.fails_of_finite (by simp) _ _
    · exact .done (by omega) (Invocation.fails_of_finite (by simp) _ _)
  | ceil | floor | abs | sqrt =>
    have hlength : inv.args.length = 1 := h
    refine .expect h (.number (by omega) rfl fun n => .done (by omega) ?_)
    exact Invocation.fails_of_finite (by simp) _ _
  | min | max => simp at hb
  | unit =>
    have hlength : inv.args.length = 1 ∨ inv.args.length = 2 := h
    refine .expect h (.number (by omega) rfl fun n => ?_)
    split
    · rw [bind_map_left]
      exact .text (by omega) rfl fun unit => .done (by omega) (.ok _)
    · exact .done (by omega) (.ok _)
  | rgb =>
    have hlength : inv.args.length = 3 := h
    refine .expect h (.channel (by omega) rfl fun red => .channel (by omega) rfl fun green => ?_)
    exact .channel (by omega) rfl fun blue => .done (by omega) (.ok _)
  | rgba =>
    have hlength : inv.args.length = 2 ∨ inv.args.length = 4 := h
    refine .expect h ?_
    split
    · next htwo =>
      refine .color (by omega) (if_pos ⟨htwo, rfl⟩) fun c => ?_
      exact .alpha (by omega) (if_neg (by omega)) fun alpha => .done (by omega) (.ok _)
    · next hfour =>
      have hnumber (index : Nat) : rgba.expects inv.args.length index = .number := if_neg fun h => hfour h.1
      refine .channel (by omega) (hnumber 0) fun red => .channel (by omega) (hnumber 1) fun green => ?_
      refine .channel (by omega) (hnumber 2) fun blue => ?_
      exact .alpha (by omega) (hnumber 3) fun alpha => .done (by omega) (.ok _)
  | e =>
    have hlength : inv.args.length = 1 := h
    exact .expect h (.text (by omega) rfl fun t => .done (by omega) (.ok _))

end Builtin

namespace Invocation.Misfit

variable {inv : Invocation} {i : Nat} {a : Expr} (h : inv.Misfit (fun _ => .number) 0 i a)
include h

theorem number?_eq_none : a.number? = none := by
  rw [← Option.not_isSome_iff_eq_none, ← ArgumentKind.fits_number_iff]
  exact h.not_fits

theorem map_number? : inv.args.map Expr.number? =
    ((inv.args.take i).filterMap Expr.number?).map some ++ none :: (inv.args.drop (i + 1)).map Expr.number? := by
  obtain ⟨hlt, hget⟩ := List.getElem?_eq_some_iff.mp h.arg
  have hbefore : ∀ x ∈ inv.args.take i, (x.number?).isSome = true := by
    intro x hx
    obtain ⟨j, hj⟩ := List.mem_iff_getElem?.mp hx
    have hji : j < i := by
      have := (List.getElem?_eq_some_iff.mp hj).1
      rw [List.length_take] at this
      omega
    rw [List.getElem?_take_of_lt hji] at hj
    exact (ArgumentKind.fits_number_iff x).mp (h.before j x (Nat.zero_le j) hji hj)
  calc inv.args.map Expr.number?
      = (inv.args.take i ++ a :: inv.args.drop (i + 1)).map Expr.number? := by
        rw [← hget, List.getElem_cons_drop, List.take_append_drop]
    _ = _ := by rw [List.map_append, List.map_cons, h.number?_eq_none, Expr.map_number? hbefore]

/-- The unit that is seen first is compared with all units that stand before the misfit, and with no other. -/
theorem choose_eq (prefer : Float → Float → Bool) :
    Library.choose prefer inv =
      match Number.firstClash? (Number.units ((inv.args.take i).filterMap Expr.number?)) with
      | some (u, v) => .error ((Cause.unitClash inv.name u v).atSpan inv.span)
      | none => .error (inv.mismatch i "number" (some a)) := by
  have hmap := h.map_number?
  have hread : inv.number i = .error (inv.mismatch i "number" (some a)) :=
    Invocation.read_of_view_none h.arg h.number?_eq_none "number"
  have hlength : ((inv.args.take i).filterMap Expr.number?).length = i := by
    have hlt := (List.getElem?_eq_some_iff.mp h.arg).1
    have hsum := congrArg List.length hmap
    simp only [List.length_map, List.length_append, List.length_cons, List.length_drop] at hsum
    omega
  generalize (inv.args.take i).filterMap Expr.number? = ns at hmap hlength
  cases ns with
  | nil =>
    obtain rfl : 0 = i := hlength
    have htakes : Builtin.Takes .min inv.args.length := (List.getElem?_eq_some_iff.mp h.arg).1
    have hexpect : inv.expect (.range 1 none) = .ok () := Invocation.expect_of_takes htakes
    rw [Library.choose, hexpect, hread]
    rfl
  | cons first ns =>
    have hindex : 1 + ns.length = i := by
      rw [← hlength, List.length_cons, Nat.add_comm]
    rw [Library.choose_of_numbers hmap, List.length_cons, Library.chooseFrom, hindex, hread]
    rfl

end Invocation.Misfit

namespace Builtin

variable {b : Builtin} {inv : Invocation}

theorem apply_eq_choose (hb : b ∈ [min, max]) : ∃ prefer, b.apply = Library.choose prefer := by
  rcases List.mem_pair.mp hb with rfl | rfl <;> exact ⟨_, rfl⟩

theorem fails_of_numbers (hb : b ∈ [min, max]) (hne : inv.args ≠ [])
    (h : ∀ a ∈ inv.args, (a.number?).isSome = true) : Fails (b.Refuses inv) (b.apply inv) := by
  obtain ⟨prefer, happly⟩ := apply_eq_choose hb
  have hmap := Expr.map_number? h
  cases hns : inv.args.filterMap Expr.number? with
  | nil =>
    rw [hns, List.map_nil, List.map_eq_nil_iff] at hmap
    exact absurd hmap hne
  | cons first ns =>
    rw [hns, ← List.append_nil (List.map some _)] at hmap
    rw [happly, Library.choose_of_numbers hmap]
    split
    · next u v _ => exact .error (.inr ⟨hb, u, v, rfl⟩)
    · exact .ok _

theorem expects_of_choose (hb : b ∈ [min, max]) (count : Nat) : b.expects count = fun _ => .number := by
  rcases List.mem_pair.mp hb with rfl | rfl <;> rfl

theorem fault_of_misfit (h : b.Takes inv.args.length) {i : Nat} {a : Expr}
    (ha : inv.Misfit (b.expects inv.args.length) 0 i a) :
    let clash := b ∈ [min, max] ∧ Number.Clash ((inv.args.take i).filterMap Expr.number?)
    (¬ clash → b.apply inv = .error (inv.mismatch i (b.expects inv.args.length i).name (some a))) ∧
      (clash → ∃ u v, b.apply inv = .error ((Cause.unitClash inv.name u v).atSpan inv.span)) := by
  intro clash
  by_cases hb : b ∈ [min, max]
  · obtain ⟨prefer, happly⟩ := apply_eq_choose hb
    rw [expects_of_choose hb] at ha ⊢
    rw [happly, ha.choose_eq]
    constructor
    · intro hclash
      rw [Number.firstClash?_of_not_clash fun h => hclash ⟨hb, h⟩]
      rfl
    · intro hclash
      obtain ⟨u, v, hfirst⟩ := Number.clash_iff.mp hclash.2
      exact ⟨u, v, by rw [hfirst]⟩
  · exact ⟨fun _ => (checks_of_takes hb h).misfit i a ha, fun hclash => absurd hclash.1 hb⟩

theorem fails_of_fits (h : b.Takes inv.args.length)
    (hfits : ∀ i a, inv.args[i]? = some a → (b.expects inv.args.length i).Fits a) :
    Fails (b.Refuses inv) (b.apply inv) := by
  by_cases hb : b ∈ [min, max]
  · have hne : inv.args ≠ [] := by
      rcases List.mem_pair.mp hb with rfl | rfl <;> exact List.ne_nil_of_length_pos h
    refine fails_of_numbers hb hne fun a ha => ?_
    obtain ⟨i, hi⟩ := List.mem_iff_getElem?.mp ha
    have hnumber := hfits i a hi
    rw [expects_of_choose hb] at hnumber
    exact (ArgumentKind.fits_number_iff a).mp hnumber
  · exact (checks_of_takes hb h).fits fun i a _ => hfits i a

end Builtin

theorem Invocation.exists_misfit {inv : Invocation} {kind : Nat → ArgumentKind}
    (h : ¬ ∀ i a, inv.args[i]? = some a → (kind i).Fits a) : ∃ i a, inv.Misfit kind 0 i a := by
  classical
  have hsome : ∃ i, ∃ a, inv.args[i]? = some a ∧ ¬ (kind i).Fits a := by
    by_contra hnone
    exact h fun i a ha => by_contra fun hfits => hnone ⟨i, a, ha, hfits⟩
  obtain ⟨a, ha, hfits⟩ := Nat.find_spec hsome
  refine ⟨Nat.find hsome, a, Nat.zero_le _, ha, hfits, fun j x _ hj hx => ?_⟩
  exact by_contra fun hmisfit => Nat.find_min hsome hj ⟨x, hx, hmisfit⟩

theorem Builtin.not_arity_of_takes {b : Builtin} {inv : Invocation} (h : b.Takes inv.args.length) {f : Fault}
    (hf : b.apply inv = .error f) (name : String) (arity : Arity) (got : Nat) :
    f.cause ≠ .arity name arity got := by
  by_cases hfits : ∀ i a, inv.args[i]? = some a → (b.expects inv.args.length i).Fits a
  · rcases fails_of_fits h hfits f hf with ⟨-, rfl⟩ | ⟨-, u, v, rfl⟩ <;> nofun
  · obtain ⟨i, a, ha⟩ := Invocation.exists_misfit hfits
    obtain ⟨hmismatch, hclash⟩ := fault_of_misfit h ha
    by_cases hc : b ∈ [min, max] ∧ Number.Clash ((inv.args.take i).filterMap Expr.number?)
    · obtain ⟨u, v, happly⟩ := hclash hc
      cases hf.symm.trans happly
      nofun
    · cases hf.symm.trans (hmismatch hc)
      nofun

theorem arguments_are_checked_from_left (b : Builtin) (inv : Invocation) :
    ((∃ name arity got s, b.apply inv = .error ⟨.arity name arity got, s⟩) ↔
      ¬ b.Takes inv.args.length) ∧
    (¬ b.Takes inv.args.length →
      b.apply inv = .error ((Cause.arity inv.name b.arity inv.args.length).atSpan inv.span)) ∧
    (b.Takes inv.args.length → ∀ i a, inv.Misfit (b.expects inv.args.length) 0 i a →
      let clash := b ∈ [.min, .max] ∧ Number.Clash ((inv.args.take i).filterMap Expr.number?)
      (¬ clash → b.apply inv = .error
        ((Cause.argument inv.name (i + 1) (b.expects inv.args.length i).name a.kind).atSpan a.span)) ∧
      (clash → ∃ u v, b.apply inv = .error ((Cause.unitClash inv.name u v).atSpan inv.span))) ∧
    (b.Takes inv.args.length →
      (∀ i a, inv.args[i]? = some a → (b.expects inv.args.length i).Fits a) →
      Fails (b.Refuses inv) (b.apply inv)) ∧
    ∀ v, b.apply inv = .ok v → v.span = inv.span := by
  have harity (h : ¬ b.Takes inv.args.length) :
      b.apply inv = .error ((Cause.arity inv.name b.arity inv.args.length).atSpan inv.span) := by
    obtain ⟨next, happly⟩ : ∃ next, b.apply inv = inv.expect b.arity >>= fun _ => next := by
      cases b <;> exact ⟨_, rfl⟩
    rw [happly, Invocation.expect_of_not_takes h]
    rfl
  refine ⟨⟨?_, fun h => ⟨_, _, _, _, harity h⟩⟩, harity, fun h i a ha => Builtin.fault_of_misfit h ha,
    Builtin.fails_of_fits, fun v hv => ?_⟩
  · rintro ⟨name, arity, got, s, hf⟩ htakes
    exact Builtin.not_arity_of_takes htakes hf name arity got rfl
  · obtain ⟨w, rfl⟩ := b.apply_answers inv v hv
    rfl

/-- The word that is the third argument is blamed, unless the units of the first two differ. -/
theorem arguments_are_checked_from_left_of_word :
    let number (unit : Option String) (s : Span) : Expr := .atom (.number ⟨1, unit⟩) s
    let word : Expr := .atom (.keyword "a") ⟨10, 11⟩
    let inv (unit : Option String) : Invocation :=
      ⟨⟨"Min", ⟨0, 20⟩⟩, [number (some "px") ⟨4, 7⟩, number unit ⟨8, 9⟩, word, number (some "em") ⟨12, 15⟩]⟩
    Builtin.min.Takes (inv none).args.length ∧
      Builtin.min.apply (inv none) = .error ((Cause.argument "Min" 3 "number" "keyword").atSpan ⟨10, 11⟩) ∧
      ∃ u v, Builtin.min.apply (inv (some "")) = .error ((Cause.unitClash "Min" u v).atSpan ⟨0, 20⟩) := by
  intro number word inv
  have htakes : Builtin.min.Takes 4 := by
    change 1 ≤ 4
    decide
  have hmisfit (unit : Option String) : (inv unit).Misfit (Builtin.expects .min 4) 0 2 word := by
    refine ⟨Nat.zero_le 2, rfl, of_decide_eq_false rfl, fun j x _ hj hx => ?_⟩
    match j, hx with
    | 0, hx | 1, hx =>
      cases hx
      exact of_decide_eq_true rfl
  have hagree : ¬ (Builtin.min ∈ [Builtin.min, .max] ∧
      Number.Clash (((inv none).args.take 2).filterMap Expr.number?)) := by decide
  have hclash : Builtin.min ∈ [Builtin.min, .max] ∧
      Number.Clash (((inv (some "")).args.take 2).filterMap Expr.number?) := by decide
  have hword := (arguments_are_checked_from_left .min (inv none)).2.2.1 htakes 2 word (hmisfit none)
  have hunits := (arguments_are_checked_from_left .min (inv (some ""))).2.2.1 htakes 2 word (hmisfit (some ""))
  exact ⟨htakes, hword.1 hagree, hunits.2 hclash⟩

end StyleValue
