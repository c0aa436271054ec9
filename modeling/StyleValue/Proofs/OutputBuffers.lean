import Mathlib.Data.List.DropRight
import StyleValue.Proofs.HostScripts
import StyleValue.Proofs.MatchedSteps
import StyleValue.Proofs.RenderedText

set_option autoImplicit false

namespace StyleValue

inductive OutputStep where
  | push
  | pop
  | append (text : String)
  | appendJoined (separator : String) (texts : List String)
  | take
deriving DecidableEq, Repr

namespace OutputStep

def change : OutputStep → LevelChange
  | push => .opens
  | pop => .closes
  | append _ | appendJoined _ _ | take => .stays

def apply : OutputStep → Output → Output
  | push, o => o.push
  | pop, o => o.pop.2
  | append t, o => o.append t
  | appendJoined separator texts, o => o.appendJoined separator texts
  | take, o => o.take.2

def text : OutputStep → String
  | append t => t
  | appendJoined separator texts => Css.joined separator texts
  | push | pop | take => ""

def edit (text : String) : OutputStep → String
  | take => ""
  | step => text ++ step.text

/-- The steps at the level at which the sequence begins, when `depth` buffers are open above it. -/
def ownLevel : Nat → List OutputStep → List OutputStep
  | _, [] => []
  | depth, push :: w => ownLevel (depth + 1) w
  | depth, pop :: w => ownLevel (depth - 1) w
  | 0, step :: w => step :: ownLevel 0 w
  | depth + 1, _ :: w => ownLevel (depth + 1) w

/-- The texts that are appended at the level at which the sequence begins, after the last step there that takes
the text. -/
def ownText (w : List OutputStep) : String :=
  String.join (((ownLevel 0 w).rtakeWhile (· ≠ take)).map text)

theorem foldl_edit (w : List OutputStep) :
    w.foldl edit "" = String.join ((w.rtakeWhile (· ≠ take)).map text) := by
  induction w using List.reverseRecOn with
  | nil => rfl
  | append_singleton w step ih =>
    rw [List.foldl_concat, ih, List.rtakeWhile_concat]
    by_cases htake : step = take
    · subst htake
      simp [edit]
    · have hedit (t : String) : edit t step = t ++ step.text := by
        cases step <;> first | rfl | exact absurd rfl htake
      simp [htake, hedit]

theorem apply_of_stays {step : OutputStep} (h : step.change = .stays) (o : Output) :
    step.apply o = o.mapCurrent fun text => edit text step := by
  cases step with
  | push | pop => cases h
  | append t => rfl
  | appendJoined separator texts => exact Output.appendJoined_eq separator texts o
  | take => rfl

end OutputStep

namespace Output

open OutputStep LevelChange

def run (w : List OutputStep) (o : Output) : Output := w.foldl (fun o step => step.apply o) o

theorem run_append (w w' : List OutputStep) (o : Output) : run (w ++ w') o = run w' (run w o) :=
  List.foldl_append

theorem run_above (root : String) (outer : List String) {depth : Nat} {w : List OutputStep}
    (h : Above OutputStep.change depth w) : ∀ (inner : List String) (own : String), inner.length = depth →
      ∃ inner', inner'.length = level OutputStep.change depth w ∧
        run w ⟨root, inner ++ own :: outer⟩ =
          ⟨root, inner' ++ (ownLevel depth w).foldl edit own :: outer⟩ := by
  refine Above.induction ?_ ?_ ?_ ?_ h
  · intro depth inner own hinner
    exact ⟨inner, hinner.trans (level_nil depth).symm, by cases depth <;> rfl⟩
  · intro depth step w hstep ih inner own hinner
    obtain rfl : step = .push := by cases step <;> first | rfl | cases hstep
    rw [level_cons_of_opens hstep]
    exact ih ("" :: inner) own (by simp [hinner])
  · intro depth step w hstep ih inner own hinner
    obtain rfl : step = .pop := by cases step <;> first | rfl | cases hstep
    obtain ⟨text, inner, rfl⟩ := List.exists_cons_of_length_eq_add_one hinner
    rw [level_cons_of_closes hstep]
    exact ih inner own (by simpa using hinner)
  · intro depth step w hstep ih inner own hinner
    rw [level_cons_of_stays hstep]
    change ∃ inner', _ ∧ run w (step.apply _) = _
    rw [apply_of_stays hstep]
    -- At its own level the step edits the text; above, it edits a text that is none of this level's.
    cases depth with
    | zero =>
      obtain rfl := List.eq_nil_of_length_eq_zero hinner
      have hlevel : ownLevel 0 (step :: w) = step :: ownLevel 0 w := by
        cases step <;> first | rfl | cases hstep
      rw [hlevel]
      exact ih [] (edit own step) rfl
    | succ depth =>
      obtain ⟨text, inner, rfl⟩ := List.exists_cons_of_length_eq_add_one hinner
      have hlevel : ownLevel (depth + 1) (step :: w) = ownLevel (depth + 1) w := by
        cases step <;> first | rfl | cases hstep
      rw [hlevel]
      exact ih (edit text step :: inner) own hinner

theorem run_matched {w : List OutputStep} (h : Matched OutputStep.change w) (o : Output) :
    run w o.push = { o with nested := ownText w :: o.nested } := by
  obtain ⟨inner, hlength, hrun⟩ := run_above o.root o.nested h.above [] "" rfl
  obtain rfl : inner = [] := List.eq_nil_of_length_eq_zero (hlength.trans h.level_zero_eq)
  rw [foldl_edit] at hrun
  exact hrun

end Output

def OutputStep.handed : OutputStep → Output → String
  | pop, o => o.pop.1
  | take, o => o.current
  | push, _ | append _, _ | appendJoined _ _, _ => ""

def OutputStep.perform (step : OutputStep) : Eval String := fun ctx =>
  .value (step.handed ctx.output) { ctx with output := step.apply ctx.output }

/-- What is done with a buffer of its own: steps, and further courses inside, each of which may depend on what
the ones before it have handed out. In the end the course is finished, which hands out the text of its buffer,
or it is left with a result of another kind. -/
inductive Course where
  | finish
  | leave (r : Except Fault String)
  | step (s : OutputStep) (next : String → Course)
  | guarded (body : Course) (next : Except Fault String → Course)

namespace Course

open LevelChange

def run : Course → Eval String
  | finish => Eval.take
  | leave r => Eval.ofExcept r
  | step s next => do
    let text ← s.perform
    (next text).run
  | guarded body next => do
    -- The failure of a course inside is handed out as well, and may be passed on.
    let r ← (Eval.buffered body.run).attempt
    (next r).run

/-- The steps of a course up to its end, and what it is left with unless it is finished. -/
structure Trace where
  steps : List OutputStep
  left : Option (Except Fault String)

namespace Trace

def after (w : List OutputStep) (t : Trace) : Trace := { t with steps := w ++ t.steps }

def all (t : Trace) : List OutputStep :=
  match t.left with
  | none => t.steps ++ [.take]
  | some _ => t.steps

def result (t : Trace) (o : Output) : Except Fault String := t.left.getD (.ok (o.run t.steps).current)

end Trace

def trace : Course → Output → Trace
  | finish, _ => ⟨[], none⟩
  | leave r, _ => ⟨[], some r⟩
  | step s next, o => ((next (s.handed o)).trace (s.apply o)).after [s]
  | guarded body next, o =>
    let inner := body.trace o.push
    let w := .push :: inner.all ++ [.pop]
    ((next (inner.result o.push)).trace (o.run w)).after w

theorem Trace.all_after (w : List OutputStep) (t : Trace) : (t.after w).all = w ++ t.all := by
  obtain ⟨steps, _ | r⟩ := t
  · exact List.append_assoc w steps [.take]
  · rfl

theorem Trace.result_after (w : List OutputStep) (t : Trace) (o : Output) :
    (t.after w).result o = t.result (o.run w) := by
  rw [Trace.result, Trace.after, Output.run_append]
  rfl

theorem run_eq (c : Course) (ctx : Context) : c.run.run ctx =
    .ofResult ((c.trace ctx.output).result ctx.output)
      { ctx with output := ctx.output.run (c.trace ctx.output).all } := by
  induction c generalizing ctx with
  | finish => rfl
  | leave r => exact Eval.run_ofExcept r ctx
  | step s next ih =>
    rw [trace, Trace.result_after, Trace.all_after, Output.run_append]
    exact ih (s.handed ctx.output) { ctx with output := s.apply ctx.output }
  | guarded body next ihbody ih =>
    let t := body.trace ctx.output.push
    let w := .push :: t.all ++ [.pop]
    have hbody : ((Eval.buffered body.run).attempt).run ctx =
        .value (t.result ctx.output.push) { ctx with output := ctx.output.run w } := by
      rw [Eval.attempt_eq_value_iff, Eval.buffered, Eval.run_between, ihbody]
      have hpop : ctx.output.run w = (ctx.output.push.run t.all).pop.2 :=
        Output.run_append (.push :: t.all) [.pop] ctx.output
      rw [hpop]
      cases t.result ctx.output.push <;> rfl
    rw [trace, Trace.result_after, Trace.all_after, Output.run_append _ (Trace.all _), run, Eval.run_bind, hbody]
    exact ih (t.result ctx.output.push) { ctx with output := ctx.output.run w }

/-- What a guard hands out whose course begins in this output: the text that is its own when it is finished. -/
def worth (c : Course) (o : Output) : Except Fault String :=
  (c.trace o.push).left.getD (.ok (OutputStep.ownText (c.trace o.push).steps))

theorem run_buffered {c : Course} {ctx : Context}
    (h : Matched OutputStep.change (c.trace ctx.output.push).steps) :
    (Eval.buffered c.run).run ctx = .ofResult (c.worth ctx.output) ctx := by
  set t := c.trace ctx.output.push with ht
  have hsteps := Output.run_matched h ctx.output
  have hresult : t.result ctx.output.push = c.worth ctx.output := by
    rw [Trace.result, hsteps]
    rfl
  -- The last step of a finished course empties the buffer, which is closed right after.
  have hpop : (ctx.output.push.run t.all).pop.2 = ctx.output := by
    rw [Trace.all]
    split
    · rw [Output.run_append, hsteps]
      rfl
    · rw [hsteps]
      rfl
  rw [Eval.buffered, Eval.run_between, run_eq, ← ht, hresult]
  cases c.worth ctx.output with
  | ok text => exact congrArg (fun o => Outcome.value text { ctx with output := o }) hpop
  | error f => exact congrArg (fun o => Outcome.fault f { ctx with output := o }) hpop

theorem run_guarded {body : Course} {ctx : Context}
    (h : Matched OutputStep.change (body.trace ctx.output.push).steps) (next : Except Fault String → Course) :
    (guarded body next).run.run ctx = (next (body.worth ctx.output)).run.run ctx := by
  rw [run, Eval.run_bind, Eval.attempt_eq_value_iff.mpr (run_buffered h)]

end Course

open LevelChange in
/-- The course of a guard may be finished or left after any part of a matched sequence that has closed what it
has opened, and the guard may stand by itself or inside another one. -/
theorem buffers_keep_texts_apart :
    (∀ (w : List OutputStep) (o : Output), Matched OutputStep.change w →
      (o.push.run w).pop = (OutputStep.ownText w, o)) ∧
    (∀ (w : List OutputStep) (i : Nat), Matched OutputStep.change w →
      closed OutputStep.change (w.take i) = opened OutputStep.change (w.take i) →
      ∀ (c : Course) (ctx : Context), (c.trace ctx.output.push).steps = w.take i →
        let r := (c.trace ctx.output.push).left.getD (.ok (OutputStep.ownText (w.take i)))
        (Eval.buffered c.run).run ctx = .ofResult r ctx ∧
          ∀ next, (Course.guarded c next).run.run ctx = (next r).run.run ctx) ∧
    (∀ (w : List OutputStep) (o : Output), 1 ≤ (o.run w).depth) ∧
    ∀ o : Output, o.depth = 1 → o.pop = (o.root, ⟨"", []⟩) := by
  refine ⟨?_, ?_, ?_, ?_⟩
  · intro w o h
    rw [Output.run_matched h]
    rfl
  · intro w i h hi c ctx hsteps
    have hprefix : Matched OutputStep.change (c.trace ctx.output.push).steps := hsteps ▸ h.of_take hi
    rw [← hsteps]
    exact ⟨Course.run_buffered hprefix, Course.run_guarded hprefix⟩
  · intro w o
    exact Nat.le_add_left 1 _
  · intro o ho
    obtain ⟨root, nested⟩ := o
    obtain rfl : nested = [] := List.eq_nil_of_length_eq_zero (Nat.succ.inj ho)
    rfl

/-- The text of an inner guard goes into the one around it, which is finished or is left early. -/
theorem buffers_keep_texts_apart_of_nested_guards :
    let o : Output := ⟨"x", ["y", ""]⟩
    let ctx : Context := { output := o }
    let f : Fault := (Cause.undefined "z").atSpan .nowhere
    let inner : Course := .step (.appendJoined "," ["b", "c"]) fun _ => .finish
    let course (next : String → Course) : Course := .step (.append "w") fun _ => .step .take fun _ =>
      .step (.append "a(") fun _ => .guarded inner fun
        | .ok text => next text
        | .error f => .leave (.error f)
    let finished := course fun text => .step (.append (text ++ ")")) fun _ => .finish
    let left := course fun _ => .leave (.error f)
    let w : List OutputStep := [.append "w", .take, .append "a(", .push, .appendJoined "," ["b", "c"], .take,
      .pop, .append "b,c)"]
    (o.push.run w).pop = ("a(b,c)", o) ∧ (Eval.buffered finished.run).run ctx = .value "a(b,c)" ctx ∧
      (Eval.buffered left.run).run ctx = .fault f ctx ∧ 1 ≤ (o.run [.pop, .pop, .pop, .pop]).depth ∧
      (Output.mk "x" []).pop = ("x", ⟨"", []⟩) := by
  intro o ctx f inner course finished left w
  obtain ⟨hpop, hguard, hdepth, hroot⟩ := buffers_keep_texts_apart
  have hmatched : LevelChange.Matched OutputStep.change w := by decide
  have htext : OutputStep.ownText w = "a(b,c)" := by decide +kernel
  have hfinished : (Eval.buffered finished.run).run ctx = .value (OutputStep.ownText w) ctx :=
    (hguard w 8 hmatched (by decide) finished ctx (by decide +kernel)).1
  have hleft := (hguard w 7 hmatched (by decide) left ctx (by decide +kernel)).1
  exact ⟨htext ▸ hpop w o hmatched, htext ▸ hfinished, hleft, hdepth _ o, hroot ⟨"x", []⟩ rfl⟩

end StyleValue
