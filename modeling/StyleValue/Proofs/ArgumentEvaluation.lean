import StyleValue.Proofs.DepthBounds

set_option autoImplicit false

namespace StyleValue

namespace Expr

/-- What evaluation comes to if only it may nest deep enough. The context may be another one at the end. -/
def Ends (lib : Library) (ctx : Context) (e : Expr) (o : Outcome Expr) : Prop :=
  ∃ least, ∀ depth, least ≤ depth → (e.evaluate lib depth).run ctx = o

/-- Expressions that have values one after the other, in contexts that lead from one to the next. -/
inductive Threads (lib : Library) : Context → List Expr → List Expr → Context → Prop
  | nil (ctx : Context) : Threads lib ctx [] [] ctx
  | cons {ctx middle after : Context} {x v : Expr} {xs values : List Expr}
      (hx : x.Ends lib ctx (.value v middle)) (hxs : Threads lib middle xs values after) :
      Threads lib ctx (x :: xs) (v :: values) after

variable {lib : Library} {ctx middle after : Context} {xs values : List Expr}

theorem Threads.run_mapM (h : Threads lib ctx xs values after) :
    ∃ least, ∀ depth, least ≤ depth → (xs.mapM (evaluate lib depth)).run ctx = .value values after := by
  induction h with
  | nil ctx => exact ⟨0, fun _ _ => rfl⟩
  | @cons ctx middle after x v xs values hx _ ih =>
    obtain ⟨least, hx⟩ := hx
    obtain ⟨least', hxs⟩ := ih
    refine ⟨max least least', fun depth hle => ?_⟩
    have hfirst := hx depth (by omega)
    have hrest := hxs depth (by omega)
    rw [List.mapM_cons, Eval.run_bind, hfirst]
    change ((xs.mapM (evaluate lib depth)) >>= fun values => pure (v :: values)).run middle = _
    rw [Eval.run_bind, hrest]
    rfl

theorem Threads.run_mapM_fault (h : Threads lib ctx xs values middle) {x : Expr} {f : Fault}
    (hx : x.Ends lib middle (.fault f after)) (rest : List Expr) :
    ∃ least, ∀ depth, least ≤ depth →
      ((xs ++ x :: rest).mapM (evaluate lib depth)).run ctx = .fault f after := by
  obtain ⟨least, hxs⟩ := h.run_mapM
  obtain ⟨least', hx⟩ := hx
  refine ⟨max least least', fun depth hle => ?_⟩
  have hbefore := hxs depth (by omega)
  have hfault := hx depth (by omega)
  rw [List.mapM_append, Eval.run_bind, hbefore]
  change (((x :: rest).mapM (evaluate lib depth)) >>= fun values' => pure (values ++ values')).run middle = _
  rw [Eval.run_bind, List.mapM_cons, Eval.run_bind, hfault]

theorem ends_of_step {e : Expr} {o : Outcome Expr}
    (h : ∃ least, ∀ depth, least ≤ depth → (e.step lib (evaluate lib depth)).run ctx = o) :
    e.Ends lib ctx o := by
  obtain ⟨least, hstep⟩ := h
  refine ⟨least + 1, fun depth hle => ?_⟩
  obtain ⟨depth, rfl⟩ : ∃ d, depth = d + 1 := ⟨depth - 1, by omega⟩
  exact hstep depth (by omega)

theorem ends_atom (lib : Library) (ctx : Context) (v : Atom) (s : Span) :
    (atom v s).Ends lib ctx (.value (atom v s) ctx) :=
  ⟨1, fun | _ + 1, _ => rfl⟩

variable {site : Site} {args : List Expr} {s : Span}

theorem Threads.ends_call {o : Outcome Expr}
    (h : Threads lib ctx ((call site args s).operands ctx.options.strictMath) values after)
    (ho : ∀ eval, (Eval.dispatch lib eval ⟨site, values⟩).run after = o) :
    (call site args s).Ends lib ctx o := by
  obtain ⟨least, hargs⟩ := h.run_mapM
  refine ends_of_step ⟨least, fun depth hle => ?_⟩
  rw [step_of_operands lib _ rfl, Eval.run_bind, hargs depth hle]
  exact ho (evaluate lib depth)

theorem Threads.ends_call_fault {before rest : List Expr} {x : Expr} {f : Fault}
    (hoperands : (call site args s).operands ctx.options.strictMath = before ++ x :: rest)
    (h : Threads lib ctx before values middle) (hx : x.Ends lib middle (.fault f after)) :
    (call site args s).Ends lib ctx (.fault f after) := by
  obtain ⟨least, hargs⟩ := h.run_mapM_fault hx rest
  refine ends_of_step ⟨least, fun depth hle => ?_⟩
  rw [step_of_operands lib _ rfl, hoperands, Eval.run_bind, hargs depth hle]

end Expr

end StyleValue
