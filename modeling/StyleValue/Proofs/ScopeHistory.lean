import StyleValue.Context
import StyleValue.Proofs.MatchedSteps

set_option autoImplicit false

namespace StyleValue

inductive ScopeStep where
  | enter
  | leave
  | define (name : String) (value : Expr)

namespace ScopeStep

open LevelChange

def change : ScopeStep → LevelChange
  | enter => .opens
  | leave => .closes
  | define _ _ => .stays

def apply : ScopeStep → Scopes → Scopes
  | enter, s => s.enter
  | leave, s => s.leave
  | define name value, s => s.define name value

/-- Step `i` of the history defines the name, in the global scope or in one that no later step closes. -/
def Lasts (w : List ScopeStep) (i : Nat) (name : String) (value : Expr) : Prop :=
  w[i]? = some (define name value) ∧
    (stillOpen change (w.take i) = 0 ∨ ¬Ends change (w.drop (i + 1)))

/-- The same of a history that begins with `depth` scopes open inside the global one. -/
def LastsFrom (depth : Nat) (w : List ScopeStep) (i : Nat) (name : String) (value : Expr) : Prop :=
  w[i]? = some (define name value) ∧
    (level change depth (w.take i) = 0 ∨ ¬Ends change (w.drop (i + 1)))

def latest (name : String) : Nat → List ScopeStep → Option Expr
  | _, [] => none
  | depth, enter :: w => latest name (depth + 1) w
  | depth, leave :: w => latest name (depth - 1) w
  | depth, define other value :: w => (latest name depth w).or
      (if name = other ∧ (depth = 0 ∨ ¬Ends change w) then some value else none)

def IsLatest (P : Nat → Expr → Prop) : Option Expr → Prop
  | none => ∀ i value, ¬P i value
  | some value => ∃ i, P i value ∧ ∀ j other, P j other → j ≤ i

theorem IsLatest.cons {P Q : Nat → Expr → Prop} {r first : Option Expr} (h : IsLatest Q r)
    (hsucc : ∀ i value, P (i + 1) value ↔ Q i value) (hzero : ∀ value, P 0 value ↔ first = some value) :
    IsLatest P (r.or first) := by
  match r, first with
  | some value, first =>
    obtain ⟨i, hi, hmax⟩ := h
    refine ⟨i + 1, (hsucc i value).mpr hi, fun j other hj => ?_⟩
    cases j with
    | zero => exact Nat.zero_le _
    | succ j => exact Nat.succ_le_succ (hmax j other ((hsucc j other).mp hj))
  | none, some value =>
    refine ⟨0, (hzero value).mpr rfl, fun j other hj => ?_⟩
    cases j with
    | zero => exact Nat.le_refl 0
    | succ j => exact absurd ((hsucc j other).mp hj) (h j other)
  | none, none =>
    intro i value hi
    cases i with
    | zero => exact absurd ((hzero value).mp hi) (by simp)
    | succ i => exact h i value ((hsucc i value).mp hi)

theorem IsLatest.eq_some_iff {P : Nat → Expr → Prop} {r : Option Expr} (h : IsLatest P r)
    (hvalue : ∀ i value other, P i value → P i other → value = other) (value : Expr) :
    r = some value ↔ ∃ i, P i value ∧ ∀ j other, P j other → j ≤ i := by
  constructor
  · rintro rfl
    exact h
  · rintro ⟨i, hi, hmax⟩
    cases r with
    | none => exact absurd hi (h i value)
    | some other =>
      obtain ⟨j, hj, hjmax⟩ := h
      obtain rfl : i = j := Nat.le_antisymm (hjmax i value hi) (hmax j other hj)
      rw [hvalue i value other hi hj]

theorem IsLatest.eq_none_iff {P : Nat → Expr → Prop} {r : Option Expr} (h : IsLatest P r) :
    r = none ↔ ∀ i value, ¬P i value := by
  constructor
  · rintro rfl
    exact h
  · intro hnone
    cases r with
    | none => rfl
    | some value =>
      obtain ⟨i, hi, -⟩ := h
      exact absurd hi (hnone i value)

variable {depth : Nat} {w : List ScopeStep} {name : String} {value : Expr} {i : Nat}

theorem lastsFrom_zero : LastsFrom 0 w i name value ↔ Lasts w i name value := by
  rw [LastsFrom, level_zero, Lasts]

theorem Lasts.unique {other : Expr} (h : Lasts w i name value) (h' : Lasts w i name other) : value = other := by
  cases h.1.symm.trans h'.1
  rfl

theorem lastsFrom_cons_zero {step : ScopeStep} : LastsFrom depth (step :: w) 0 name value ↔
    step = define name value ∧ (depth = 0 ∨ ¬Ends change w) := by
  simp [LastsFrom, level_nil]

theorem lastsFrom_cons_succ {step : ScopeStep} {inside : Nat}
    (h : ∀ v, level change depth (step :: v) = level change inside v) :
    LastsFrom depth (step :: w) (i + 1) name value ↔ LastsFrom inside w i name value := by
  rw [LastsFrom, List.take_succ_cons, h]
  rfl

theorem isLatest_latest (name : String) (depth : Nat) (w : List ScopeStep) :
    IsLatest (LastsFrom depth w · name ·) (latest name depth w) := by
  induction w generalizing depth with
  | nil => exact fun i value h => absurd h.1 (by simp)
  | cons step w ih =>
    cases step with
    | enter =>
      rw [latest, ← Option.or_none (o := latest name (depth + 1) w)]
      exact (ih (depth + 1)).cons (fun i value => lastsFrom_cons_succ fun v => level_cons_of_opens rfl)
        fun value => by simp [lastsFrom_cons_zero]
    | leave =>
      rw [latest, ← Option.or_none (o := latest name (depth - 1) w)]
      exact (ih (depth - 1)).cons (fun i value => lastsFrom_cons_succ fun v => level_cons_of_closes rfl)
        fun value => by simp [lastsFrom_cons_zero]
    | define other value =>
      refine (ih depth).cons (fun i value => lastsFrom_cons_succ fun v => level_cons_of_stays rfl) fun v => ?_
      rw [lastsFrom_cons_zero, define.injEq, Option.ite_none_right_eq_some, Option.some.injEq, and_right_comm,
        eq_comm (a := other)]

end ScopeStep

namespace Scopes

open ScopeStep LevelChange

def run (w : List ScopeStep) (s : Scopes) : Scopes := w.foldl (fun s step => step.apply s) s

def outward (n : Nat) (s : Scopes) : Scopes := { s with inner := s.inner.drop n }

theorem lookup_enter (s : Scopes) (name : String) : s.enter.lookup name = s.lookup name := by
  simp [enter, lookup, List.findSome?_cons]

theorem lookup_define (s : Scopes) (name other : String) (value : Expr) :
    (s.define other value).lookup name = if name = other then some value else s.lookup name := by
  obtain ⟨inner, global⟩ := s
  cases inner with
  | nil => simp [define, lookup, Table.find?_insert]
  | cons scope outer =>
    by_cases h : name = other <;> simp [define, lookup, List.findSome?_cons, Table.find?_insert, h]

theorem length_define (s : Scopes) (name : String) (value : Expr) :
    (s.define name value).inner.length = s.inner.length := by
  obtain ⟨_ | ⟨scope, outer⟩, global⟩ := s <;> rfl

theorem length_run (w : List ScopeStep) (s : Scopes) :
    (run w s).inner.length = level ScopeStep.change s.inner.length w := by
  induction w generalizing s with
  | nil => exact (level_nil _).symm
  | cons step w ih =>
    cases step with
    | enter => exact (ih s.enter).trans (level_cons_of_opens rfl).symm
    | leave =>
      rw [level_cons_of_closes rfl]
      exact (ih s.leave).trans (by rw [leave, List.length_tail])
    | define name value =>
      rw [level_cons_of_stays rfl, ← length_define s name value]
      exact ih (s.define name value)

theorem lookup_outward_enter (n : Nat) (s : Scopes) (name : String) :
    (s.enter.outward n).lookup name = (s.outward (n - 1)).lookup name := by
  cases n with
  | zero => exact lookup_enter s name
  | succ n => rfl

theorem outward_leave (n : Nat) (s : Scopes) : s.leave.outward n = s.outward (n + 1) := by
  rw [outward, outward, leave, List.drop_tail]

/-- A definition is seen from further out only where it is global. -/
theorem lookup_outward_define (n : Nat) (s : Scopes) (name other : String) (value : Expr) :
    ((s.define other value).outward n).lookup name =
      if name = other ∧ (s.inner.length = 0 ∨ n = 0) then some value else (s.outward n).lookup name := by
  cases n with
  | zero =>
    simp only [or_true, and_true]
    exact lookup_define s name other value
  | succ n =>
    obtain ⟨_ | ⟨scope, outer⟩, global⟩ := s
    · simp only [List.length_nil, true_or, and_true]
      exact lookup_define ⟨[], global⟩ name other value
    · simp [define, outward]

theorem lookup_run (w : List ScopeStep) (s : Scopes) (name : String) : (run w s).lookup name =
    (latest name s.inner.length w).or ((s.outward (surplus ScopeStep.change w)).lookup name) := by
  induction w generalizing s with
  | nil => rfl
  | cons step w ih =>
    cases step with
    | enter =>
      rw [surplus_cons_of_opens rfl, ← lookup_outward_enter]
      exact ih s.enter
    | leave =>
      rw [surplus_cons_of_closes rfl, ← outward_leave, latest, ← List.length_tail]
      exact ih s.leave
    | define other value =>
      rw [surplus_cons_of_stays rfl, latest, Option.or_assoc]
      refine (ih (s.define other value)).trans ?_
      rw [lookup_outward_define, length_define]
      simp only [not_ends_iff]
      split <;> rfl

theorem isLatest_lookup (w : List ScopeStep) (name : String) :
    IsLatest (Lasts w · name ·) ((({} : Scopes).run w).lookup name) := by
  have hnone (n : Nat) : (({} : Scopes).outward n).lookup name = none := by
    rw [outward, List.drop_nil]
    rfl
  have hlatest := isLatest_latest name 0 w
  simp only [lastsFrom_zero] at hlatest
  rw [lookup_run, hnone, Option.or_none]
  exact hlatest

theorem run_above (base : List Bindings) (global : Bindings) {depth : Nat} {w : List ScopeStep}
    (h : Above ScopeStep.change depth w) : ∀ inner : List Bindings, inner.length = depth + 1 →
      ∃ inner' : List Bindings, inner'.length = level ScopeStep.change depth w + 1 ∧
        run w ⟨inner ++ base, global⟩ = ⟨inner' ++ base, global⟩ := by
  refine Above.induction ?_ ?_ ?_ ?_ h
  · intro depth inner hinner
    exact ⟨inner, by rw [level_nil, hinner], rfl⟩
  · intro depth step w hstep ih inner hinner
    obtain rfl : step = .enter := by cases step <;> first | rfl | cases hstep
    rw [level_cons_of_opens hstep]
    exact ih (.empty :: inner) (by simp [hinner])
  · intro depth step w hstep ih inner hinner
    obtain rfl : step = .leave := by cases step <;> first | rfl | cases hstep
    obtain ⟨scope, inner, rfl⟩ := List.exists_cons_of_length_eq_add_one hinner
    rw [level_cons_of_closes hstep]
    exact ih inner (by simpa using hinner)
  · intro depth step w hstep ih inner hinner
    obtain ⟨name, value, rfl⟩ : ∃ name value, step = .define name value := by
      cases step <;> first | exact ⟨_, _, rfl⟩ | cases hstep
    obtain ⟨scope, inner, rfl⟩ := List.exists_cons_of_length_eq_add_one hinner
    rw [level_cons_of_stays hstep]
    exact ih (scope.insert name value :: inner) hinner

theorem leave_run_enter {w : List ScopeStep} (h : Matched ScopeStep.change w) (s : Scopes) :
    (s.enter.run w).leave = s := by
  obtain ⟨inner, hlength, hrun⟩ := run_above s.inner s.global h.above [.empty] rfl
  rw [h.level_zero_eq] at hlength
  obtain ⟨scope, rfl⟩ := List.length_eq_one_iff.mp hlength
  exact congrArg leave hrun

end Scopes

open LevelChange in
theorem scopes_follow_history (w : List ScopeStep) (name : String) :
    (∀ value, (({} : Scopes).run w).lookup name = some value ↔ ∃ i, ScopeStep.Lasts w i name value ∧
      ∀ j other, ScopeStep.Lasts w j name other → j ≤ i) ∧
    ((({} : Scopes).run w).lookup name = none ↔ ∀ i value, ¬ScopeStep.Lasts w i name value) ∧
    (({} : Scopes).run w).depth = 1 + stillOpen ScopeStep.change w ∧
    (Matched ScopeStep.change w → ∀ s : Scopes, (s.enter.run w).leave = s) := by
  have hlatest := Scopes.isLatest_lookup w name
  refine ⟨hlatest.eq_some_iff fun i value other => ScopeStep.Lasts.unique, hlatest.eq_none_iff, ?_,
    Scopes.leave_run_enter⟩
  rw [Scopes.depth, Scopes.length_run, List.length_nil, level_zero, Nat.add_comm]

/-- A leave that closes nothing, a definition in place of another one and a scope that is closed again. -/
theorem scopes_follow_history_of_shadowing :
    let word (w : String) : Expr := .atom (.keyword w) .nowhere
    let inside : List ScopeStep := [.define "a" (word "d"), .enter, .define "b" (word "e"), .leave]
    let w : List ScopeStep := [.leave, .define "a" (word "c"), .enter, .define "b" (word "f"),
      .define "b" (word "g")]
    let s := ({} : Scopes).run w
    (∃ i, ScopeStep.Lasts w i "b" (word "g") ∧ ∀ j other, ScopeStep.Lasts w j "b" other → j ≤ i) ∧
      s.depth = 2 ∧ LevelChange.Matched ScopeStep.change inside ∧ (s.enter.run inside).leave = s := by
  intro word inside w s
  have hlookup : s.lookup "b" = some (word "g") := by rfl
  have hmatched : LevelChange.Matched ScopeStep.change inside := by decide
  obtain ⟨hlast, -, hdepth, -⟩ := scopes_follow_history w "b"
  exact ⟨(hlast _).mp hlookup, hdepth, hmatched, (scopes_follow_history inside "a").2.2.2 hmatched s⟩

end StyleValue
