import Mathlib.Data.List.Forall2
import StyleValue.Evaluate

/-!
Results of steps. A step that hands back the context it was given is known by its results, so that runs in
two contexts can be compared: an outcome follows another one if, unless it gives up, the other has the same
result. Failures of a set of exempt causes may be left out of the comparison.
-/

set_option autoImplicit false

namespace StyleValue

variable {α β : Type}

namespace Outcome

/-- What was returned, unless the step gave up. -/
def result? : Outcome α → Option (Except Fault α)
  | value a _ => some (.ok a)
  | fault f _ => some (.error f)
  | tooDeep => none

/-- The context at the end, unless the step gave up. -/
def after? : Outcome α → Option Context
  | value _ ctx | fault _ ctx => some ctx
  | tooDeep => none

def ofResult (r : Except Fault α) (ctx : Context) : Outcome α :=
  match r with
  | .ok a => value a ctx
  | .error f => fault f ctx

@[simp] theorem result?_ofResult (r : Except Fault α) (ctx : Context) :
    (ofResult r ctx).result? = some r := by
  cases r <;> rfl

theorem ofResult_ne_tooDeep (r : Except Fault α) (ctx : Context) : ofResult r ctx ≠ tooDeep := by
  cases r <;> nofun

theorem eq_tooDeep_iff {o : Outcome α} : o = tooDeep ↔ o.result? = none := by
  cases o <;> simp [result?]

theorem exists_value {o : Outcome α} {a : α} (h : o.result? = some (.ok a)) :
    ∃ after, o = value a after := by
  cases o <;> simp_all [result?]

theorem exists_fault {o : Outcome α} {f : Fault} (h : o.result? = some (.error f)) :
    ∃ after, o = fault f after := by
  cases o <;> simp_all [result?]

/-- `o'` has the result of `o` if there is one, exempt failures apart. -/
def Follows (exempt : Fault → Prop) (o o' : Outcome α) : Prop :=
  match o with
  | value a _ => o'.result? = some (.ok a)
  | fault f _ => exempt f ∨ o'.result? = some (.error f)
  | tooDeep => True

def noFault : Fault → Prop := fun _ => False

theorem Follows.of_result {exempt : Fault → Prop} {o o' : Outcome α}
    (h : ∀ r, o.result? = some r → o'.result? = some r) : o.Follows exempt o' := by
  cases o with
  | value a after => exact h _ rfl
  | fault f after => exact .inr (h _ rfl)
  | tooDeep => trivial

theorem Follows.result {exempt : Fault → Prop} {o o' : Outcome α} {r : Except Fault α}
    (h : o.Follows exempt o') (hr : o.result? = some r) (hx : ∀ f, r = .error f → ¬ exempt f) :
    o'.result? = some r := by
  cases o with
  | value a after => cases hr; exact h
  | fault f after => cases hr; exact h.resolve_left (hx f rfl)
  | tooDeep => cases hr

theorem Follows.result_of_noFault {o o' : Outcome α} {r : Except Fault α}
    (h : o.Follows noFault o') (hr : o.result? = some r) : o'.result? = some r :=
  h.result hr fun _ _ => id

theorem Follows.congr {exempt : Fault → Prop} {o o' p p' : Outcome α} (h : o.Follows exempt o')
    (hp : p.result? = o.result?) (hp' : p'.result? = o'.result?) : p.Follows exempt p' := by
  cases o with
  | value a after =>
    obtain ⟨final, rfl⟩ := exists_value hp
    exact hp'.trans h
  | fault f after =>
    obtain ⟨final, rfl⟩ := exists_fault hp
    exact h.imp id hp'.trans
  | tooDeep =>
    obtain rfl := eq_tooDeep_iff.mpr hp
    trivial

theorem Follows.of_map {exempt : Fault → Prop} {o o' : Outcome α} {p p' : Outcome β} {g : α → β}
    (h : o.Follows exempt o') (hp : p.result? = o.result?.map (Except.map g))
    (hp' : p'.result? = o'.result?.map (Except.map g)) : p.Follows exempt p' := by
  cases o with
  | value a after =>
    refine .of_result fun r hr => ?_
    rw [hp', h]
    exact hp.symm.trans hr
  | fault f after =>
    obtain ⟨final, rfl⟩ := exists_fault hp
    rcases h with h | h
    · exact .inl h
    · exact .inr (by rw [hp', h]; rfl)
  | tooDeep =>
    obtain rfl := eq_tooDeep_iff.mpr hp
    trivial

theorem Follows.refl (exempt : Fault → Prop) (o : Outcome α) : o.Follows exempt o :=
  .of_result fun _ => id

end Outcome

namespace Eval

variable {m m' : Eval α} {f f' : α → Eval β} {ctx ctx' : Context}

@[simp] theorem run_pure (a : α) (ctx : Context) : (pure a : Eval α).run ctx = .value a ctx := rfl

theorem run_context (ctx : Context) : context.run ctx = .value ctx ctx := rfl

theorem run_bind (m : Eval α) (f : α → Eval β) (ctx : Context) :
    (m >>= f).run ctx = match m.run ctx with
      | .value a after => (f a).run after
      | .fault e after => .fault e after
      | .tooDeep => .tooDeep := rfl

theorem run_ofExcept (r : Except Fault α) (ctx : Context) :
    (ofExcept r).run ctx = .ofResult r ctx := by
  cases r <;> rfl

/-- What the view tells of the context is, if the step does not give up, the same at its end as at its start. -/
def Keeps {γ : Type} (view : Context → γ) (m : Eval α) : Prop :=
  ∀ ctx after, (m.run ctx).after? = some after → view after = view ctx

/-- The step ends, if it does not give up, in the context that it started from. -/
def Restores (m : Eval α) : Prop := ∀ ctx after, (m.run ctx).after? = some after → after = ctx

theorem Restores.keeps {γ : Type} (h : m.Restores) (view : Context → γ) : m.Keeps view :=
  fun ctx after ha => congrArg view (h ctx after ha)

theorem Keeps.restores (h : m.Keeps id) : m.Restores := h

theorem Restores.value (h : m.Restores) {a : α} {after : Context} (hv : m.run ctx = .value a after) :
    after = ctx :=
  h ctx after (by rw [hv]; rfl)

theorem Restores.fault (h : m.Restores) {e : Fault} {after : Context}
    (hv : m.run ctx = .fault e after) : after = ctx :=
  h ctx after (by rw [hv]; rfl)

theorem Restores.run_eq (h : m.Restores) {r : Except Fault α} (hr : (m.run ctx).result? = some r) :
    m.run ctx = .ofResult r ctx := by
  cases hv : m.run ctx with
  | value a after =>
    rw [hv] at hr
    cases hr
    rw [h.value hv, Outcome.ofResult]
  | fault e after =>
    rw [hv] at hr
    cases hr
    rw [h.fault hv, Outcome.ofResult]
  | tooDeep =>
    rw [hv] at hr
    cases hr

theorem restores_pure (a : α) : (pure a : Eval α).Restores := by
  intro ctx after h
  exact (Option.some.inj h).symm

theorem restores_fail (e : Fault) : (fail e : Eval α).Restores := by
  intro ctx after h
  exact (Option.some.inj h).symm

theorem restores_tooDeep : (tooDeep : Eval α).Restores := by
  intro ctx after h
  cases h

theorem restores_ofExcept (r : Except Fault α) : (ofExcept r).Restores := by
  cases r with
  | ok a => exact restores_pure a
  | error e => exact restores_fail e

theorem Keeps.bind {γ : Type} {view : Context → γ} (hm : m.Keeps view) (hf : ∀ a, (f a).Keeps view) :
    (m >>= f).Keeps view := by
  intro ctx after h
  rw [run_bind] at h
  cases hv : m.run ctx with
  | value a middle =>
    rw [hv] at h
    have hmiddle : view middle = view ctx := hm ctx middle (by rw [hv]; rfl)
    exact (hf a middle after h).trans hmiddle
  | fault e middle =>
    rw [hv] at h
    cases h
    exact hm ctx after (by rw [hv]; rfl)
  | tooDeep =>
    rw [hv] at h
    cases h

theorem Keeps.mapM {γ : Type} {view : Context → γ} {g : α → Eval β} (hg : ∀ a, (g a).Keeps view)
    (as : List α) : (as.mapM g).Keeps view := by
  induction as with
  | nil => exact (restores_pure []).keeps view
  | cons a as ih =>
    rw [List.mapM_cons]
    exact (hg a).bind fun b => ih.bind fun bs => (restores_pure (b :: bs)).keeps view

theorem Restores.mapM {g : α → Eval β} (hg : ∀ a, (g a).Restores) (as : List α) :
    (as.mapM g).Restores :=
  Keeps.restores (.mapM (fun a => (hg a).keeps id) as)

theorem run_between (before after : Context → Context) (m : Eval α) (ctx : Context) :
    (between before after m).run ctx = match m.run (before ctx) with
      | .value a c => .value a (after c)
      | .fault e c => .fault e (after c)
      | .tooDeep => .tooDeep := rfl

/-- Two changes of the context, of which the second undoes the first as far as the view goes. -/
theorem Keeps.between {γ : Type} {view : Context → γ} {before after : Context → Context}
    (h : m.Keeps view) (hundo : ∀ ctx c, view c = view (before ctx) → view (after c) = view ctx) :
    (between before after m).Keeps view := by
  intro ctx final hfinal
  rw [run_between] at hfinal
  cases hv : m.run (before ctx) with
  | value a middle =>
    rw [hv] at hfinal
    cases hfinal
    exact hundo ctx middle (h _ middle (by rw [hv]; rfl))
  | fault e middle =>
    rw [hv] at hfinal
    cases hfinal
    exact hundo ctx middle (h _ middle (by rw [hv]; rfl))
  | tooDeep =>
    rw [hv] at hfinal
    cases hfinal

theorem result_between (before after : Context → Context) (m : Eval α) (ctx : Context) :
    ((between before after m).run ctx).result? = (m.run (before ctx)).result? := by
  rw [run_between]
  cases m.run (before ctx) <;> rfl

theorem result_map (m : Eval α) (g : α → β) (ctx : Context) :
    ((m >>= fun a => pure (g a)).run ctx).result? = (m.run ctx).result?.map (Except.map g) := by
  rw [run_bind]
  cases m.run ctx <;> rfl

theorem follows_bind {exempt : Fault → Prop} (hm : m.Restores) (hm' : m'.Restores)
    (h : (m.run ctx).Follows exempt (m'.run ctx'))
    (hf : ∀ a, ((f a).run ctx).Follows exempt ((f' a).run ctx')) :
    ((m >>= f).run ctx).Follows exempt ((m' >>= f').run ctx') := by
  rw [run_bind, run_bind]
  cases hv : m.run ctx with
  | value a after =>
    obtain rfl := hm.value hv
    rw [hv] at h
    obtain ⟨after', hv'⟩ := Outcome.exists_value h
    obtain rfl := hm'.value hv'
    rw [hv']
    exact hf a
  | fault e after =>
    rw [hv] at h
    rcases h with h | h
    · exact .inl h
    · obtain ⟨after', hv'⟩ := Outcome.exists_fault h
      rw [hv']
      exact .inr rfl
  | tooDeep => trivial

theorem follows_mapM {γ : Type} {exempt : Fault → Prop} {g g' : α → Eval β} (hg : ∀ a, (g a).Restores)
    (hg' : ∀ a, (g' a).Restores) (k k' : γ → α) (cs : List γ)
    (h : ∀ c ∈ cs, ((g (k c)).run ctx).Follows exempt ((g' (k' c)).run ctx')) :
    (((cs.map k).mapM g).run ctx).Follows exempt (((cs.map k').mapM g').run ctx') := by
  induction cs with
  | nil => exact .refl exempt (.value [] ctx)
  | cons c cs ih =>
    rw [List.map_cons, List.map_cons, List.mapM_cons, List.mapM_cons]
    refine follows_bind (hg _) (hg' _) (h c List.mem_cons_self) fun b => ?_
    refine follows_bind (.mapM hg _) (.mapM hg' _) (ih fun x hx => h x (List.mem_cons_of_mem c hx)) ?_
    exact fun bs => .of_result fun r hr => hr

theorem bind_eq_value_iff {b : β} {after : Context} : (m >>= f).run ctx = .value b after ↔
    ∃ a middle, m.run ctx = .value a middle ∧ (f a).run middle = .value b after := by
  rw [run_bind]
  cases m.run ctx <;> simp

theorem bind_eq_fault_iff {e : Fault} {after : Context} : (m >>= f).run ctx = .fault e after ↔
    m.run ctx = .fault e after ∨
      ∃ a middle, m.run ctx = .value a middle ∧ (f a).run middle = .fault e after := by
  rw [run_bind]
  cases m.run ctx <;> simp

theorem bind_eq_tooDeep_iff : (m >>= f).run ctx = .tooDeep ↔
    m.run ctx = .tooDeep ∨ ∃ a middle, m.run ctx = .value a middle ∧ (f a).run middle = .tooDeep := by
  rw [run_bind]
  cases m.run ctx <;> simp

theorem value_of_bind (hm : m.Restores) {b : β} {after : Context}
    (h : (m >>= f).run ctx = .value b after) :
    ∃ a, m.run ctx = .value a ctx ∧ (f a).run ctx = .value b after := by
  obtain ⟨a, middle, ha, hrest⟩ := bind_eq_value_iff.mp h
  obtain rfl := hm.value ha
  exact ⟨a, ha, hrest⟩

theorem fault_of_bind (hm : m.Restores) {e : Fault} {after : Context}
    (h : (m >>= f).run ctx = .fault e after) :
    m.run ctx = .fault e ctx ∨ ∃ a, m.run ctx = .value a ctx ∧ (f a).run ctx = .fault e after := by
  rcases bind_eq_fault_iff.mp h with he | ⟨a, middle, ha, hrest⟩
  · obtain rfl := hm.fault he
    exact .inl he
  · obtain rfl := hm.value ha
    exact .inr ⟨a, ha, hrest⟩

theorem tooDeep_of_bind (hm : m.Restores) (h : (m >>= f).run ctx = .tooDeep) :
    m.run ctx = .tooDeep ∨ ∃ a, m.run ctx = .value a ctx ∧ (f a).run ctx = .tooDeep := by
  rcases bind_eq_tooDeep_iff.mp h with hdeep | ⟨a, middle, ha, hrest⟩
  · exact .inl hdeep
  · obtain rfl := hm.value ha
    exact .inr ⟨a, ha, hrest⟩

theorem forall₂_of_mapM {g : α → Eval β} (hg : ∀ a, (g a).Restores) {as : List α} {bs : List β}
    {after : Context} (h : (as.mapM g).run ctx = .value bs after) :
    List.Forall₂ (fun a b => (g a).run ctx = .value b ctx) as bs := by
  induction as generalizing bs after with
  | nil =>
    cases h
    exact .nil
  | cons a as ih =>
    rw [List.mapM_cons] at h
    obtain ⟨b, hb, h⟩ := value_of_bind (hg a) h
    obtain ⟨bs', hbs, h⟩ := value_of_bind (.mapM hg as) h
    cases h
    exact .cons hb (ih hbs)

theorem run_mapM_of_forall₂ {g : α → Eval β} {as : List α} {bs : List β}
    (h : List.Forall₂ (fun a b => (g a).run ctx = .value b ctx) as bs) :
    (as.mapM g).run ctx = .value bs ctx := by
  induction h with
  | nil => rfl
  | @cons a b as bs hb _ ih =>
    rw [List.mapM_cons, run_bind, hb]
    change ((as.mapM g) >>= fun bs => pure (b :: bs)).run ctx = _
    rw [run_bind, ih]
    rfl

theorem value_of_mapM {g : α → Eval β} (hg : ∀ a, (g a).Restores) {as : List α} {bs : List β}
    {after : Context} (h : (as.mapM g).run ctx = .value bs after) :
    ∀ a ∈ as, ∃ b, (g a).run ctx = .value b ctx := by
  have heach := forall₂_of_mapM hg h
  intro a ha
  obtain ⟨i, hi, rfl⟩ := List.mem_iff_getElem.mp ha
  exact ⟨_, heach.get hi (heach.length_eq ▸ hi)⟩

theorem fault_of_mapM {g : α → Eval β} (hg : ∀ a, (g a).Restores) {as : List α} {e : Fault}
    {after : Context} (h : (as.mapM g).run ctx = .fault e after) :
    ∃ a ∈ as, (g a).run ctx = .fault e ctx := by
  induction as generalizing after with
  | nil => cases h
  | cons x as ih =>
    rw [List.mapM_cons] at h
    rcases fault_of_bind (hg x) h with h | ⟨b, -, h⟩
    · exact ⟨x, List.mem_cons_self, h⟩
    · rcases fault_of_bind (.mapM hg as) h with h | ⟨bs, -, h⟩
      · obtain ⟨a, ha, h⟩ := ih h
        exact ⟨a, List.mem_cons_of_mem x ha, h⟩
      · cases h

theorem tooDeep_of_mapM {g : α → Eval β} (hg : ∀ a, (g a).Restores) {as : List α}
    (h : (as.mapM g).run ctx = .tooDeep) :
    ∃ before a after, as = before ++ a :: after ∧ (∀ y ∈ before, ∃ b, (g y).run ctx = .value b ctx) ∧
      (g a).run ctx = .tooDeep := by
  induction as with
  | nil => cases h
  | cons x as ih =>
    rw [List.mapM_cons] at h
    rcases tooDeep_of_bind (hg x) h with h | ⟨b, hb, h⟩
    · exact ⟨[], x, as, rfl, by simp, h⟩
    · rcases tooDeep_of_bind (.mapM hg as) h with h | ⟨bs, -, h⟩
      · obtain ⟨before, a, after, rfl, hbefore, ha⟩ := ih h
        exact ⟨x :: before, a, after, rfl, List.forall_mem_cons.mpr ⟨⟨b, hb⟩, hbefore⟩, ha⟩
      · cases h

theorem run_mapM_tooDeep {g : α → Eval β} {before after : List α} {a : α}
    (hbefore : ∀ y ∈ before, (g y).run ctx = .tooDeep ∨ ∃ b, (g y).run ctx = .value b ctx)
    (ha : (g a).run ctx = .tooDeep) : ((before ++ a :: after).mapM g).run ctx = .tooDeep := by
  induction before with
  | nil => rw [List.nil_append, List.mapM_cons, run_bind, ha]
  | cons y before ih =>
    obtain ⟨hy, hbefore⟩ := List.forall_mem_cons.mp hbefore
    rw [List.cons_append, List.mapM_cons, run_bind]
    rcases hy with hy | ⟨b, hy⟩
    · rw [hy]
    · rw [hy]
      change (((before ++ a :: after).mapM g) >>= fun bs => pure (b :: bs)).run ctx = _
      rw [run_bind, ih hbefore]

end Eval

end StyleValue
