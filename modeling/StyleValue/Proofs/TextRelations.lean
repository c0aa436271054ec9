import StyleValue.Proofs.StepFaults

/-!
Values that differ in texts alone. Arithmetic and the builtin functions hand texts on and look at them in three
places: whether a unit is a percent sign, whether it is empty, and whether two units are the same. Values that
are related by what keeps to the first two have related answers, unless units come together that are the same on
one side and differ on the other.
-/

set_option autoImplicit false

namespace StyleValue

variable {α β γ δ : Type} {T : String → String → Prop} {X X' : Fault → Prop}

/-- The same value, with units that are related if there are any. -/
inductive Number.Alike (T : String → String → Prop) : Number → Number → Prop
  | mk (value : Float) {unit unit' : Option String} (h : Option.Rel T unit unit') :
      Alike T ⟨value, unit⟩ ⟨value, unit'⟩

inductive Atom.Alike (T : String → String → Prop) : Atom → Atom → Prop
  | number {n n' : Number} (h : n.Alike T n') : Alike T (.number n) (.number n')
  | color (c : Color) : Alike T (.color c) (.color c)
  | keyword (word : String) : Alike T (.keyword word) (.keyword word)
  | quoted {value value' : String} (h : T value value') (quote : Char) (escaped : Bool) :
      Alike T (.quoted ⟨value, quote, escaped⟩) (.quoted ⟨value', quote, escaped⟩)
  | text {text text' : String} (h : T text text') : Alike T (.text text) (.text text')

/-- Values with the same numbers and colors in the same places. Their units, strings and texts are related. -/
inductive Expr.Alike (T : String → String → Prop) : Expr → Expr → Prop
  | atom {v v' : Atom} (h : v.Alike T v') (s : Span) : Alike T (.atom v s) (.atom v' s)
  | deferred (l : Expr) (op : Operator) (r : Expr) (s : Span) :
      Alike T (.deferred l op r s) (.deferred l op r s)
  | list {items items' : List Expr} (h : List.Forall₂ (Alike T) items items') (s : Span) :
      Alike T (.list items s) (.list items' s)

inductive Cause.Alike (T : String → String → Prop) : Cause → Cause → Prop
  | same (c : Cause) : Alike T c c
  | unitClash (function : String) {left left' right right' : String} (hleft : T left left')
      (hright : T right right') : Alike T (.unitClash function left right) (.unitClash function left' right')

namespace Invocation

def unitAt? (inv : Invocation) (index : Nat) : Option String :=
  inv.args[index]?.bind fun e => e.number?.bind Number.unit

/-- Some argument has the one unit in the first call and the other, which is related to it, in the second. -/
def SharesUnit (T : String → String → Prop) (inv inv' : Invocation) (unit unit' : String) : Prop :=
  T unit unit' ∧ ∃ index, inv.unitAt? index = some unit ∧ inv'.unitAt? index = some unit'

theorem SharesUnit.flip {inv inv' : Invocation} {unit unit' : String} (h : inv.SharesUnit T inv' unit unit') :
    inv'.SharesUnit (flip T) inv unit' unit := by
  obtain ⟨hunit, index, hindex, hindex'⟩ := h
  exact ⟨hunit, index, hindex', hindex⟩

theorem unitAt?_of_number {inv : Invocation} {index : Nat} {n : Number} (h : inv.number index = .ok n) :
    inv.unitAt? index = n.unit := by
  rw [number, read] at h
  split at h
  · next m hm =>
    cases h
    obtain ⟨e, he, hnumber⟩ := Option.bind_eq_some_iff.mp hm
    rw [unitAt?, he, Option.bind_some, hnumber, Option.bind_some]
  · cases h

end Invocation

namespace Fault

def Alike (T : String → String → Prop) (f f' : Fault) : Prop :=
  f.cause.Alike T f'.cause ∧ f.span = f'.span

theorem Alike.refl (T : String → String → Prop) (f : Fault) : f.Alike T f := ⟨.same f.cause, rfl⟩

/-- A function fails over the units of two arguments of one call, which differ. The units of the same arguments
of the other call are one text. -/
def Clashes (T : String → String → Prop) (inv inv' : Invocation) (f : Fault) : Prop :=
  ∃ left right unit, f = (Cause.unitClash inv.name left right).atSpan inv.span ∧ left ≠ right ∧
    inv.SharesUnit T inv' left unit ∧ inv.SharesUnit T inv' right unit

end Fault

/-- The relation keeps to what functions ask of a single text. -/
structure KeepsUnits (T : String → String → Prop) : Prop where
  same (text : String) : T text text
  percent {text text' : String} (h : T text text') : text = "%" ↔ text' = "%"
  empty {text text' : String} (h : T text text') : text = "" ↔ text' = ""

/-- Related results, or a failure on one side that is exempt there and need not be one on the other. -/
inductive ResultsAlike (T : String → String → Prop) (X X' : Fault → Prop) (R : α → β → Prop) :
    Except Fault α → Except Fault β → Prop
  | ok {a : α} {b : β} (h : R a b) : ResultsAlike T X X' R (.ok a) (.ok b)
  | error {f f' : Fault} (h : f.Alike T f') : ResultsAlike T X X' R (.error f) (.error f')
  | left {f : Fault} (h : X f) (r' : Except Fault β) : ResultsAlike T X X' R (.error f) r'
  | right (r : Except Fault α) {f' : Fault} (h : X' f') : ResultsAlike T X X' R r (.error f')

/-- The answers to two calls. Only a clash of units is exempt. -/
abbrev AnswersAlike (T : String → String → Prop) (inv inv' : Invocation) (R : α → β → Prop) :
    Except Fault α → Except Fault β → Prop :=
  ResultsAlike T (Fault.Clashes T inv inv') (Fault.Clashes (flip T) inv' inv) R

namespace ResultsAlike

variable {R : α → β → Prop} {S : γ → δ → Prop} {r : Except Fault α} {r' : Except Fault β}

theorem bind {k : α → Except Fault γ} {k' : β → Except Fault δ} (hr : ResultsAlike T X X' R r r')
    (hk : ∀ a b, R a b → ResultsAlike T X X' S (k a) (k' b)) : ResultsAlike T X X' S (r >>= k) (r' >>= k') := by
  cases hr with
  | ok h => exact hk _ _ h
  | error h => exact .error h
  | left h r' => exact .left h (r' >>= k')
  | right r h => exact .right (r >>= k) h

theorem map {g : α → γ} {g' : β → δ} (hr : ResultsAlike T X X' R r r') (hg : ∀ a b, R a b → S (g a) (g' b)) :
    ResultsAlike T X X' S (g <$> r) (g' <$> r') := by
  cases hr with
  | ok h => exact .ok (hg _ _ h)
  | error h => exact .error h
  | left h r' => exact .left h (g' <$> r')
  | right r h => exact .right (g <$> r) h

theorem widen {Y Y' : Fault → Prop} (hr : ResultsAlike T X X' R r r') (hX : ∀ f, X f → Y f)
    (hX' : ∀ f, X' f → Y' f) : ResultsAlike T Y Y' R r r' := by
  cases hr with
  | ok h => exact .ok h
  | error h => exact .error h
  | left h r' => exact .left (hX _ h) r'
  | right r h => exact .right r (hX' _ h)

theorem imp {S : α → β → Prop} (hr : ResultsAlike T X X' R r r')
    (hS : ∀ a b, R a b → r = .ok a → r' = .ok b → S a b) : ResultsAlike T X X' S r r' := by
  cases hr with
  | ok h => exact .ok (hS _ _ h rfl rfl)
  | error h => exact .error h
  | left h r' => exact .left h r'
  | right r h => exact .right r h

theorem ite {c c' : Prop} [Decidable c] [Decidable c'] {q : Except Fault α} {q' : Except Fault β}
    (hc : c ↔ c') (hr : ResultsAlike T X X' R r r') (hq : ResultsAlike T X X' R q q') :
    ResultsAlike T X X' R (if c then r else q) (if c' then r' else q') := by
  by_cases h : c
  · rw [if_pos h, if_pos (hc.mp h)]
    exact hr
  · rw [if_neg h, if_neg fun h' => h (hc.mpr h')]
    exact hq

theorem of_eq (r : Except Fault α) : ResultsAlike T X X' Eq r r := by
  cases r with
  | ok a => exact .ok rfl
  | error f => exact .error (.refl T f)

end ResultsAlike

/-! Expressions. -/

namespace Expr.Alike

variable {e e' : Expr}

theorem span_eq (h : e.Alike T e') : e.span = e'.span := by
  cases h <;> rfl

theorem kind_eq (h : e.Alike T e') : e.kind = e'.kind := by
  cases h with
  | atom h s => cases h <;> rfl
  | deferred l op r s => rfl
  | list h s => rfl

theorem relocate (h : e.Alike T e') (s : Span) : (e.relocate s).Alike T (e'.relocate s) := by
  cases h with
  | atom h _ => exact .atom h s
  | deferred l op r _ => exact .deferred l op r s
  | list h _ => exact .list h s

theorem number? (h : e.Alike T e') : Option.Rel (Number.Alike T) e.number? e'.number? := by
  cases h with
  | atom h s =>
    cases h with
    | number h => exact .some h
    | _ => exact .none
  | deferred l op r s => exact .none
  | list h s => exact .none

theorem color? (h : e.Alike T e') : Option.Rel Eq e.color? e'.color? := by
  cases h with
  | atom h s =>
    cases h with
    | color c => exact .some rfl
    | _ => exact .none
  | deferred l op r s => exact .none
  | list h s => exact .none

theorem text? (hT : KeepsUnits T) (h : e.Alike T e') : Option.Rel T e.text? e'.text? := by
  cases h with
  | atom h s =>
    cases h with
    | number h => exact .none
    | color c => exact .none
    | keyword word => exact .some (hT.same word)
    | quoted h quote escaped => exact .some h
    | text h => exact .some h
  | deferred l op r s => exact .none
  | list h s => exact .none

end Expr.Alike

theorem Atom.Alike.refl (hT : KeepsUnits T) (v : Atom) : v.Alike T v := by
  cases v with
  | number n =>
    obtain ⟨value, unit⟩ := n
    cases unit with
    | none => exact .number (.mk value .none)
    | some unit => exact .number (.mk value (.some (hT.same unit)))
  | color c => exact .color c
  | keyword word => exact .keyword word
  | quoted q => exact .quoted (hT.same q.value) q.quote q.escaped
  | text text => exact .text (hT.same text)

theorem Number.Alike.percent_iff (hT : KeepsUnits T) {n n' : Number} (h : n.Alike T n') :
    n.unitText = "%" ↔ n'.unitText = "%" := by
  obtain ⟨value, hunit⟩ := h
  cases hunit with
  | none => rfl
  | some h => exact hT.percent h

theorem rel_or {a a' b b' : Option String} (ha : Option.Rel T a a') (hb : Option.Rel T b b') :
    Option.Rel T (a.or b) (a'.or b') := by
  cases ha with
  | none => exact hb
  | some h => exact .some h

theorem rel_filter (hT : KeepsUnits T) {unit unit' : Option String} (h : Option.Rel T unit unit') :
    Option.Rel T (unit.filter (· != "")) (unit'.filter (· != "")) := by
  cases h with
  | none => exact .none
  | @some text text' h =>
    by_cases hempty : text = ""
    · obtain rfl := (hT.empty h).mp hempty
      subst hempty
      exact .none
    · have hempty' : text' ≠ "" := fun h' => hempty ((hT.empty h).mpr h')
      rw [Option.filter_some_pos (by simpa using hempty), Option.filter_some_pos (by simpa using hempty')]
      exact .some h

/-! Arithmetic, which looks at values and kinds. -/

namespace Expr

variable {l l' r r' : Expr} {op : Operator}

/-- The operations have related values, or they fail for the same cause. -/
def CombineAlike (T : String → String → Prop) (a b : Except Cause Atom) : Prop :=
  (∃ v v', a = .ok v ∧ b = .ok v' ∧ v.Alike T v') ∨ ∃ cause, a = .error cause ∧ b = .error cause

theorem CombineAlike.of_eq (hT : KeepsUnits T) {a b : Except Cause Atom} (h : a = b) : CombineAlike T a b := by
  cases h
  cases a with
  | ok v => exact .inl ⟨v, v, rfl, rfl, .refl hT v⟩
  | error cause => exact .inr ⟨cause, rfl, rfl⟩

theorem combineAlike_number {n n' m m' : Number} (hn : n.Alike T n') (hm : m.Alike T m') (op : Operator) :
    CombineAlike T (Atom.number <$> n.combine op m) (Atom.number <$> n'.combine op m') := by
  obtain ⟨x, hn⟩ := hn
  obtain ⟨y, hm⟩ := hm
  simp only [Number.combine]
  cases op.apply x y with
  | ok z => exact .inl ⟨_, _, rfl, rfl, .number (.mk z (rel_or hn hm))⟩
  | error cause => exact .inr ⟨cause, rfl, rfl⟩

theorem Alike.combine (hT : KeepsUnits T) (hl : l.Alike T l') (hr : r.Alike T r') (op : Operator) :
    CombineAlike T (l.combine op r) (l'.combine op r') := by
  cases hl with
  | deferred a op' b s =>
    exact .inr ⟨.operands op "deferred operation" r.kind, rfl, by rw [hr.kind_eq]; rfl⟩
  | list h s => exact .inr ⟨.operands op "expression" r.kind, rfl, by rw [hr.kind_eq]; rfl⟩
  | atom hv s =>
    cases hr with
    | deferred a op' b t => cases hv <;> exact .of_eq hT rfl
    | list h t => cases hv <;> exact .of_eq hT rfl
    | atom hw t =>
      cases hv with
      | number hn =>
        cases hw with
        | number hm => exact combineAlike_number hn hm op
        | color c =>
          obtain ⟨x, -⟩ := hn
          exact .of_eq hT rfl
        | _ => exact .of_eq hT rfl
      | color c =>
        cases hw with
        | number hm =>
          obtain ⟨x, -⟩ := hm
          exact .of_eq hT rfl
        | _ => exact .of_eq hT rfl
      | _ => cases hw <;> exact .of_eq hT rfl

end Expr

/-! Arguments. -/

theorem rel_getElem? {R : α → β → Prop} {as : List α} {bs : List β} (h : List.Forall₂ R as bs) (index : Nat) :
    Option.Rel R as[index]? bs[index]? := by
  induction h generalizing index with
  | nil => exact .none
  | cons hab _ ih =>
    cases index with
    | zero => exact .some hab
    | succ index => exact ih index

namespace Invocation

variable {site : Site} {args args' : List Expr} (h : List.Forall₂ (Expr.Alike T) args args')
include h

theorem expect_alike (arity : Arity) : ResultsAlike T X X' Eq ((Invocation.mk site args).expect arity)
    ((Invocation.mk site args').expect arity) := by
  rw [expect, expect, h.length_eq]
  exact .of_eq _

theorem read_alike {R : α → α → Prop} {expected : String} {view : Expr → Option α}
    (hview : ∀ e e', e.Alike T e' → Option.Rel R (view e) (view e')) (index : Nat) :
    ResultsAlike T X X' R ((Invocation.mk site args).read expected view index)
      ((Invocation.mk site args').read expected view index) := by
  have harg := rel_getElem? h index
  simp only [read]
  generalize args[index]? = x, args'[index]? = x' at harg
  cases harg with
  | none => exact .error (.refl T _)
  | @some e e' he =>
    have hblame : mismatch ⟨site, args⟩ index expected (some e) =
        mismatch ⟨site, args'⟩ index expected (some e') := by
      simp only [mismatch, Option.elim_some, he.kind_eq, he.span_eq, name]
    simp only [Option.bind_some, hblame]
    have hview := hview e e' he
    generalize view e = a, view e' = b at hview
    cases hview with
    | none => exact .error (.refl T _)
    | some hab => exact .ok hab

theorem number_alike (index : Nat) : ResultsAlike T X X' (Number.Alike T)
    ((Invocation.mk site args).number index) ((Invocation.mk site args').number index) :=
  read_alike h (fun _ _ he => he.number?) index

theorem color_alike (index : Nat) : ResultsAlike T X X' Eq ((Invocation.mk site args).color index)
    ((Invocation.mk site args').color index) :=
  read_alike h (fun _ _ he => he.color?) index

theorem text_alike (hT : KeepsUnits T) (index : Nat) : ResultsAlike T X X' T
    ((Invocation.mk site args).text index) ((Invocation.mk site args').text index) :=
  read_alike h (fun _ _ he => he.text? hT) index

end Invocation

/-! Functions. -/

namespace Library

variable {site : Site} {args args' : List Expr}

theorem finite_alike (x : Float) : ResultsAlike T X X' Eq ((Invocation.mk site args).finite x)
    ((Invocation.mk site args').finite x) :=
  .of_eq _

theorem checked_alike {unit unit' : Option String} (hunit : Option.Rel T unit unit') (x : Float) :
    ResultsAlike T X X' (Expr.Alike T)
      (do return (Invocation.mk site args).answer (.number ⟨← (Invocation.mk site args).finite x, unit⟩))
      (do return (Invocation.mk site args').answer (.number ⟨← (Invocation.mk site args').finite x, unit'⟩)) := by
  refine (finite_alike x).bind fun y y' hy => ?_
  subst hy
  exact .ok (.atom (.number (.mk y hunit)) site.span)

theorem agree_alike {seen seen' other other' : Option String}
    (hseen : Option.Rel (Invocation.SharesUnit T ⟨site, args⟩ ⟨site, args'⟩) seen seen')
    (hother : Option.Rel (Invocation.SharesUnit T ⟨site, args⟩ ⟨site, args'⟩) other other') :
    AnswersAlike T ⟨site, args⟩ ⟨site, args'⟩
      (Option.Rel (Invocation.SharesUnit T ⟨site, args⟩ ⟨site, args'⟩)) (agree ⟨site, args⟩ seen other)
      (agree ⟨site, args'⟩ seen' other') := by
  cases hseen with
  | none => exact .ok hother
  | @some seen seen' hs =>
    cases hother with
    | none => exact .ok (.some hs)
    | @some other other' ho =>
      rw [agree, agree]
      by_cases heq : seen = other
      · by_cases heq' : seen' = other'
        · rw [if_pos heq, if_pos heq']
          exact .ok (.some hs)
        · rw [if_pos heq, if_neg heq']
          exact .right _ ⟨seen', other', seen, rfl, heq', hs.flip, heq ▸ ho.flip⟩
      · by_cases heq' : seen' = other'
        · rw [if_neg heq, if_pos heq']
          exact .left ⟨seen, other, seen', rfl, heq, hs, heq' ▸ ho⟩ _
        · rw [if_neg heq, if_neg heq']
          exact .error ⟨.unitClash site.name hs.1 ho.1, rfl⟩

variable (h : List.Forall₂ (Expr.Alike T) args args')
include h

theorem number_sharesUnit (index : Nat) : ResultsAlike T X X'
    (fun n n' => n.Alike T n' ∧ Option.Rel (Invocation.SharesUnit T ⟨site, args⟩ ⟨site, args'⟩) n.unit n'.unit)
    ((Invocation.mk site args).number index) ((Invocation.mk site args').number index) := by
  refine (Invocation.number_alike h index).imp fun n n' hn hnumber hnumber' => ⟨hn, ?_⟩
  have hunit := Invocation.unitAt?_of_number hnumber
  have hunit' := Invocation.unitAt?_of_number hnumber'
  obtain ⟨x, hrel⟩ := hn
  cases hrel with
  | none => exact .none
  | some hrel => exact .some ⟨hrel, index, hunit, hunit'⟩

theorem chooseFrom_alike (prefer : Float → Float → Bool) (count index : Nat) {best best' : Number}
    (hbest : best.Alike T best') {unit unit' : Option String}
    (hunit : Option.Rel (Invocation.SharesUnit T ⟨site, args⟩ ⟨site, args'⟩) unit unit') :
    AnswersAlike T ⟨site, args⟩ ⟨site, args'⟩ (Number.Alike T)
      (chooseFrom ⟨site, args⟩ prefer count index best unit)
      (chooseFrom ⟨site, args'⟩ prefer count index best' unit') := by
  induction count generalizing index best best' unit unit' with
  | zero => exact .ok hbest
  | succ count ih =>
    rw [chooseFrom, chooseFrom]
    refine (number_sharesUnit h index).bind fun n n' hnumber => ?_
    obtain ⟨hn, hunit'⟩ := hnumber
    refine (agree_alike hunit hunit').bind fun unit unit' hunit => ih (index + 1) ?_ hunit
    obtain ⟨x, hn⟩ := hn
    obtain ⟨y, hy⟩ := hbest
    split
    · exact .mk x hn
    · exact .mk y hy

theorem channel_alike (hT : KeepsUnits T) (index : Nat) :
    ResultsAlike T X X' Eq (channel ⟨site, args⟩ index) (channel ⟨site, args'⟩ index) := by
  refine (Invocation.number_alike h index).bind fun n n' hn => ?_
  have hpercent := hn.percent_iff hT
  obtain ⟨x, -⟩ := hn
  exact .ok (by simp only [hpercent])

theorem alpha_alike (hT : KeepsUnits T) (index : Nat) :
    ResultsAlike T X X' Eq (alpha ⟨site, args⟩ index) (alpha ⟨site, args'⟩ index) := by
  refine (Invocation.number_alike h index).bind fun n n' hn => ?_
  have hpercent := hn.percent_iff hT
  obtain ⟨x, -⟩ := hn
  exact .ok (by simp only [hpercent])

theorem mapNumber_alike (g : Float → Float) :
    ResultsAlike T X X' (Expr.Alike T) (mapNumber g ⟨site, args⟩) (mapNumber g ⟨site, args'⟩) := by
  refine (Invocation.expect_alike h _).bind fun _ _ _ => (Invocation.number_alike h 0).bind fun n n' hn => ?_
  obtain ⟨x, hunit⟩ := hn
  exact checked_alike hunit (g x)

theorem choose_alike (prefer : Float → Float → Bool) : AnswersAlike T ⟨site, args⟩ ⟨site, args'⟩ (Expr.Alike T)
    (choose prefer ⟨site, args⟩) (choose prefer ⟨site, args'⟩) := by
  refine (Invocation.expect_alike h _).bind fun _ _ _ => (number_sharesUnit h 0).bind fun n n' hnumber => ?_
  obtain ⟨hn, hunit⟩ := hnumber
  simp only [h.length_eq]
  refine (chooseFrom_alike h prefer _ 1 hn hunit).bind fun best best' hbest => ?_
  exact .ok (.atom (.number hbest) site.span)

end Library

theorem Builtin.apply_alike (hT : KeepsUnits T) (b : Builtin) (site : Site) {args args' : List Expr}
    (h : List.Forall₂ (Expr.Alike T) args args') :
    AnswersAlike T ⟨site, args⟩ ⟨site, args'⟩ (Expr.Alike T) (b.apply ⟨site, args⟩)
      (b.apply ⟨site, args'⟩) := by
  have hlength : args.length = 2 ↔ args'.length = 2 := by rw [h.length_eq]
  cases b with
  | percentage =>
    refine (Invocation.expect_alike h _).bind fun _ _ _ => (Invocation.number_alike h 0).bind fun n n' hn => ?_
    obtain ⟨x, -⟩ := hn
    exact Library.checked_alike (.some (hT.same "%")) (x * 100)
  | round =>
    refine (Invocation.expect_alike h _).bind fun _ _ _ => (Invocation.number_alike h 0).bind fun n n' hn => ?_
    obtain ⟨x, hunit⟩ := hn
    refine .ite hlength (.bind (S := Expr.Alike T) (R := Eq) ?_ fun p p' hp => ?_) ?_
    · refine (Invocation.number_alike h 1).map fun m m' hm => ?_
      obtain ⟨y, -⟩ := hm
      rfl
    · subst hp
      exact Library.checked_alike hunit _
    · exact Library.checked_alike hunit _
  | ceil | floor | abs | sqrt => exact Library.mapNumber_alike h _
  | min | max => exact Library.choose_alike h _
  | unit =>
    refine (Invocation.expect_alike h _).bind fun _ _ _ => (Invocation.number_alike h 0).bind fun n n' hn => ?_
    obtain ⟨x, -⟩ := hn
    refine .ite hlength (.bind (R := Option.Rel T) ?_ fun unit unit' hunit => ?_) ?_
    · exact (Invocation.text_alike h hT 1).map fun text text' htext => .some htext
    · exact .ok (.atom (.number (.mk x (rel_filter hT hunit))) site.span)
    · exact .ok (.atom (.number (.mk x .none)) site.span)
  | rgb =>
    refine (Invocation.expect_alike h _).bind fun _ _ _ => ?_
    refine (Library.channel_alike h hT 0).bind fun red _ hred => ?_
    refine (Library.channel_alike h hT 1).bind fun green _ hgreen => ?_
    refine (Library.channel_alike h hT 2).bind fun blue _ hblue => ?_
    subst hred hgreen hblue
    exact .ok (.atom (.color _) site.span)
  | rgba =>
    refine (Invocation.expect_alike h _).bind fun _ _ _ => .ite hlength ?_ ?_
    · refine (Invocation.color_alike h 0).bind fun c _ hc => ?_
      refine (Library.alpha_alike h hT 1).bind fun alpha _ halpha => ?_
      subst hc halpha
      exact .ok (.atom (.color _) site.span)
    · refine (Library.channel_alike h hT 0).bind fun red _ hred => ?_
      refine (Library.channel_alike h hT 1).bind fun green _ hgreen => ?_
      refine (Library.channel_alike h hT 2).bind fun blue _ hblue => ?_
      refine (Library.alpha_alike h hT 3).bind fun alpha _ halpha => ?_
      subst hred hgreen hblue halpha
      exact .ok (.atom (.color _) site.span)
  | e =>
    refine (Invocation.expect_alike h _).bind fun _ _ _ => ?_
    refine (Invocation.text_alike h hT 0).bind fun text text' htext => ?_
    exact .ok (.atom (.quoted htext _ _) site.span)

end StyleValue
