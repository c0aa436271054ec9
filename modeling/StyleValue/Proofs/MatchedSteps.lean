import Mathlib.Data.List.Basic

/-!
Sequences of steps that open and close levels. In a matched sequence every prefix opens at least as many levels
as it closes, and the whole sequence as many, so that the level at which it begins is never closed. Any other
sequence closes some levels that were open before it, its surplus, and leaves some of its own open. Where closing
the outermost level does nothing, these two numbers tell how many levels are open in the end.
-/

set_option autoImplicit false

namespace StyleValue

inductive LevelChange where
  | opens
  | closes
  | stays
deriving DecidableEq, Repr

namespace LevelChange

variable {α : Type} (change : α → LevelChange)

def opened (w : List α) : Nat := w.countP fun x => change x = opens

def closed (w : List α) : Nat := w.countP fun x => change x = closes

structure Matched (w : List α) : Prop where
  closed_le : ∀ i, closed change (w.take i) ≤ opened change (w.take i)
  closed_eq : closed change w = opened change w

/-- No step closes a level that is open at the start, `depth` further ones apart. -/
def Above (depth : Nat) (w : List α) : Prop :=
  ∀ i, closed change (w.take i) ≤ depth + opened change (w.take i)

def Ends (w : List α) : Prop := ∃ i, w[i]?.map change = some closes ∧ Matched change (w.take i)

/-- The number of levels open at the start that the sequence closes. -/
def surplus : List α → Nat
  | [] => 0
  | x :: w =>
    match change x with
    | opens => surplus w - 1
    | closes => surplus w + 1
    | stays => surplus w

variable {change} {x : α} {w : List α} {depth : Nat}

theorem Matched.above (h : Matched change w) : Above change 0 w := fun i => by
  rw [Nat.zero_add]
  exact h.closed_le i

theorem matched_iff_above :
    Matched change w ↔ Above change 0 w ∧ closed change w = 0 + opened change w := by
  refine ⟨fun h => ⟨h.above, h.closed_eq.trans (Nat.zero_add _).symm⟩, fun ⟨h, heq⟩ => ⟨fun i => ?_, ?_⟩⟩
  · have hi := h i
    rwa [Nat.zero_add] at hi
  · rwa [Nat.zero_add] at heq

theorem Matched.of_take {i : Nat} (h : Matched change w)
    (hi : closed change (w.take i) = opened change (w.take i)) : Matched change (w.take i) where
  closed_le j := by
    rw [List.take_take]
    exact h.closed_le _
  closed_eq := hi

theorem matched_iff : Matched change w ↔
    (∀ i < w.length, closed change (w.take i) ≤ opened change (w.take i)) ∧
      closed change w = opened change w := by
  refine ⟨fun h => ⟨fun i _ => h.closed_le i, h.closed_eq⟩, fun ⟨hle, heq⟩ => ⟨fun i => ?_, heq⟩⟩
  rcases Nat.lt_or_ge i w.length with hi | hi
  · exact hle i hi
  · rw [List.take_of_length_le hi]
    exact Nat.le_of_eq heq

instance : Decidable (Matched change w) := decidable_of_iff _ matched_iff.symm

theorem opened_cons (x : α) (w : List α) :
    opened change (x :: w) = opened change w + if change x = opens then 1 else 0 := by
  simp [opened, List.countP_cons]

theorem closed_cons (x : α) (w : List α) :
    closed change (x :: w) = closed change w + if change x = closes then 1 else 0 := by
  simp [closed, List.countP_cons]

theorem above_cons_iff : Above change depth (x :: w) ↔ ∀ i,
    closed change (w.take i) + (if change x = closes then 1 else 0) ≤
      depth + (opened change (w.take i) + if change x = opens then 1 else 0) := by
  refine ⟨fun h i => ?_, fun h i => ?_⟩
  · have hi := h (i + 1)
    rwa [List.take_succ_cons, closed_cons, opened_cons] at hi
  · cases i with
    | zero => exact Nat.zero_le _
    | succ i =>
      rw [List.take_succ_cons, closed_cons, opened_cons]
      exact h i

theorem above_cons_of_opens (hx : change x = opens) :
    Above change depth (x :: w) ↔ Above change (depth + 1) w := by
  rw [above_cons_iff]
  refine forall_congr' fun i => ?_
  simp only [hx, reduceIte, reduceCtorEq]
  omega

theorem above_cons_of_stays (hx : change x = stays) : Above change depth (x :: w) ↔ Above change depth w := by
  rw [above_cons_iff]
  refine forall_congr' fun i => ?_
  simp only [hx, reduceIte, reduceCtorEq]
  omega

theorem above_cons_of_closes (hx : change x = closes) :
    Above change (depth + 1) (x :: w) ↔ Above change depth w := by
  rw [above_cons_iff]
  refine forall_congr' fun i => ?_
  simp only [hx, reduceIte, reduceCtorEq]
  omega

theorem not_above_cons_of_closes (hx : change x = closes) : ¬Above change 0 (x :: w) := by
  rw [above_cons_iff, hx]
  intro h
  exact absurd (h 0) (by simp [opened, closed])

/-- Along the sequence, with the number of levels that are open above the one at which it begins. -/
@[elab_as_elim]
theorem Above.induction {motive : Nat → List α → Prop} (nil : ∀ depth, motive depth [])
    (opens : ∀ depth x w, change x = opens → motive (depth + 1) w → motive depth (x :: w))
    (closes : ∀ depth x w, change x = closes → motive depth w → motive (depth + 1) (x :: w))
    (stays : ∀ depth x w, change x = stays → motive depth w → motive depth (x :: w))
    {depth : Nat} {w : List α} (h : Above change depth w) : motive depth w := by
  induction w generalizing depth with
  | nil => exact nil depth
  | cons x w ih =>
    cases hx : change x with
    | opens => exact opens depth x w hx (ih ((above_cons_of_opens hx).mp h))
    | closes =>
      cases depth with
      | zero => exact absurd h (not_above_cons_of_closes hx)
      | succ depth => exact closes depth x w hx (ih ((above_cons_of_closes hx).mp h))
    | stays => exact stays depth x w hx (ih ((above_cons_of_stays hx).mp h))

theorem surplus_cons_of_opens (hx : change x = opens) : surplus change (x :: w) = surplus change w - 1 := by
  rw [surplus, hx]

theorem surplus_cons_of_closes (hx : change x = closes) : surplus change (x :: w) = surplus change w + 1 := by
  rw [surplus, hx]

theorem surplus_cons_of_stays (hx : change x = stays) : surplus change (x :: w) = surplus change w := by
  rw [surplus, hx]

theorem lt_surplus_iff : depth < surplus change w ↔ ∃ i, w[i]?.map change = some closes ∧
    Above change depth (w.take i) ∧ closed change (w.take i) = depth + opened change (w.take i) := by
  induction w generalizing depth with
  | nil => simp [surplus]
  | cons x w ih =>
    rw [← Nat.or_exists_add_one]
    simp only [List.getElem?_cons_zero, List.getElem?_cons_succ, List.take_zero, List.take_succ_cons,
      opened_cons, closed_cons, Option.map_some, Option.some.injEq]
    cases hx : change x with
    | opens =>
      rw [surplus_cons_of_opens hx, Nat.lt_sub_iff_add_lt, ih]
      simp only [above_cons_of_opens hx, reduceCtorEq, reduceIte, false_and, false_or]
      refine exists_congr fun i => and_congr_right fun _ => and_congr_right fun _ => ?_
      omega
    | closes =>
      rw [surplus_cons_of_closes hx]
      cases depth with
      | zero => simp [Above, opened, closed]
      | succ depth =>
        rw [Nat.succ_lt_succ_iff, ih]
        have hnil : closed change ([] : List α) ≠ depth + 1 + opened change [] := by simp [opened, closed]
        simp only [above_cons_of_closes hx, reduceCtorEq, reduceIte, hnil, and_false, false_or]
        refine exists_congr fun i => and_congr_right fun _ => and_congr_right fun _ => ?_
        omega
    | stays =>
      rw [surplus_cons_of_stays hx, ih]
      simp only [above_cons_of_stays hx, reduceCtorEq, reduceIte, false_and, false_or, Nat.add_zero]

theorem ends_iff : Ends change w ↔ 0 < surplus change w := by
  rw [lt_surplus_iff]
  exact exists_congr fun i => and_congr_right fun _ => matched_iff_above

theorem not_ends_iff : ¬Ends change w ↔ surplus change w = 0 := by
  rw [ends_iff, Nat.not_lt, Nat.le_zero]

instance : Decidable (Ends change w) := decidable_of_iff _ ends_iff.symm

variable (change) in
/-- The number of steps that open a level which no later step closes. -/
def stillOpen : List α → Nat
  | [] => 0
  | x :: w => stillOpen w + if change x = opens ∧ ¬Ends change w then 1 else 0

variable (change) in
/-- The number of levels that are open after the sequence if `depth` are open before and closing none does
nothing. -/
def level (depth : Nat) (w : List α) : Nat := stillOpen change w + (depth - surplus change w)

theorem level_nil (depth : Nat) : level change depth [] = depth := Nat.zero_add depth

theorem level_cons_of_opens (hx : change x = opens) : level change depth (x :: w) = level change (depth + 1) w := by
  have hends : Ends change w ↔ 0 < surplus change w := ends_iff
  rw [level, level, stillOpen, surplus_cons_of_opens hx]
  simp only [hx, hends, true_and]
  split <;> omega

theorem level_cons_of_closes (hx : change x = closes) :
    level change depth (x :: w) = level change (depth - 1) w := by
  rw [level, level, stillOpen, surplus_cons_of_closes hx]
  simp only [hx, reduceCtorEq, false_and, if_false]
  omega

theorem level_cons_of_stays (hx : change x = stays) : level change depth (x :: w) = level change depth w := by
  rw [level, level, stillOpen, surplus_cons_of_stays hx]
  simp only [hx, reduceCtorEq, false_and, if_false, Nat.add_zero]

theorem level_zero (w : List α) : level change 0 w = stillOpen change w := by
  rw [level, Nat.zero_sub, Nat.add_zero]

theorem Above.level_add_closed (h : Above change depth w) :
    level change depth w + closed change w = depth + opened change w := by
  refine Above.induction ?_ ?_ ?_ ?_ h
  · intro depth
    rw [level_nil]
    rfl
  · intro depth x w hx ih
    rw [level_cons_of_opens hx, opened_cons, closed_cons, hx, if_pos rfl, if_neg (by decide)]
    omega
  · intro depth x w hx ih
    rw [level_cons_of_closes hx, opened_cons, closed_cons, hx, if_pos rfl, if_neg (by decide), Nat.add_sub_cancel]
    omega
  · intro depth x w hx ih
    rw [level_cons_of_stays hx, opened_cons, closed_cons, hx, if_neg (by decide), if_neg (by decide)]
    omega

theorem Matched.level_zero_eq (h : Matched change w) : level change 0 w = 0 := by
  have hcount := h.above.level_add_closed
  have hclosed := h.closed_eq
  omega

end LevelChange

end StyleValue
