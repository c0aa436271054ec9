import Mathlib.Order.OrderDual
import StyleValue.Setup
import StyleValue.Proofs.FloatOrder

set_option autoImplicit false

namespace StyleValue

namespace Invocation

def numbers (inv : Invocation) : List Number := inv.args.filterMap Expr.number?

variable {α : Type} {inv : Invocation} {index : Nat} {e : Expr} {view : Expr → Option α}

theorem read_of_view {a : α} (he : inv.args[index]? = some e) (ha : view e = some a) (expected : String) :
    inv.read expected view index = .ok a := by
  rw [read, he, Option.bind_some, ha]

theorem read_of_view_none (he : inv.args[index]? = some e) (hnone : view e = none) (expected : String) :
    inv.read expected view index = .error (inv.mismatch index expected (some e)) := by
  rw [read, he, Option.bind_some, hnone]

end Invocation

namespace Number

/-- From left to right. A number without a unit adds none; the empty unit is one. -/
def units (ns : List Number) : List String := ns.filterMap Number.unit

def Clash (ns : List Number) : Prop :=
  ∃ n ∈ ns, ∃ m ∈ ns, ∃ u ∈ n.unit, ∃ v ∈ m.unit, u ≠ v

instance : DecidablePred Clash := fun ns =>
  inferInstanceAs (Decidable (∃ n ∈ ns, ∃ m ∈ ns, ∃ u ∈ n.unit, ∃ v ∈ m.unit, u ≠ v))

def firstClash? : List String → Option (String × String)
  | [] => none
  | u :: us => (us.find? (· != u)).map (u, ·)

/-- The leftmost of the numbers than which none is better. -/
def Leftmost (better : Float → Float → Prop) (ns : List Number) (r : Number) : Prop :=
  ∃ before after, ns = before ++ r :: after ∧ (∀ n ∈ ns, ¬ better n.value r.value) ∧
    ∀ n ∈ before, ∃ m ∈ ns, better m.value n.value

theorem units_cons (n : Number) (ns : List Number) : units (n :: ns) = n.unit.toList ++ units ns := by
  cases h : n.unit <;> simp [units, h]

theorem mem_units {u : String} {ns : List Number} : u ∈ units ns ↔ ∃ n ∈ ns, n.unit = some u :=
  List.mem_filterMap

theorem firstClash?_eq_some_iff {u v : String} {us : List String} :
    firstClash? us = some (u, v) ↔ us.head? = some u ∧ us.find? (· != u) = some v := by
  cases us with
  | nil => simp [firstClash?]
  | cons first us =>
    simp only [firstClash?, Option.map_eq_some_iff, Prod.mk.injEq, List.head?_cons, Option.some_inj]
    constructor
    · rintro ⟨_, hv, rfl, rfl⟩
      simp [hv]
    · rintro ⟨rfl, hv⟩
      rw [List.find?_cons_of_neg (by simp)] at hv
      exact ⟨v, hv, rfl, rfl⟩

theorem clash_iff {ns : List Number} : Clash ns ↔ ∃ u v, firstClash? (units ns) = some (u, v) := by
  constructor
  · rintro ⟨n, hn, m, hm, u, hu, v, hv, huv⟩
    have hu : u ∈ units ns := mem_units.mpr ⟨n, hn, hu⟩
    have hv : v ∈ units ns := mem_units.mpr ⟨m, hm, hv⟩
    obtain ⟨first, hfirst⟩ := Option.isSome_iff_exists.mp (List.isSome_head?.mpr (List.ne_nil_of_mem hu))
    have hother : ((units ns).find? (· != first)).isSome = true := by
      rw [List.find?_isSome]
      by_cases h : u = first
      · exact ⟨v, hv, by simpa [← h] using Ne.symm huv⟩
      · exact ⟨u, hu, by simpa using h⟩
    obtain ⟨other, hother⟩ := Option.isSome_iff_exists.mp hother
    exact ⟨first, other, firstClash?_eq_some_iff.mpr ⟨hfirst, hother⟩⟩
  · rintro ⟨u, v, h⟩
    obtain ⟨hu, hv⟩ := firstClash?_eq_some_iff.mp h
    obtain ⟨n, hn, hnu⟩ := mem_units.mp (List.mem_of_head? hu)
    obtain ⟨m, hm, hmv⟩ := mem_units.mp (List.mem_of_find?_eq_some hv)
    have hne : v ≠ u := by simpa using List.find?_some hv
    exact ⟨n, hn, m, hm, u, hnu, v, hmv, hne.symm⟩

theorem firstClash?_of_not_clash {ns : List Number} (h : ¬ Clash ns) : firstClash? (units ns) = none :=
  Option.eq_none_iff_forall_ne_some.mpr fun p hp => h (clash_iff.mpr ⟨p.1, p.2, hp⟩)

end Number

namespace Library

open Number

def pick (prefer : Float → Float → Bool) (best candidate : Number) : Number :=
  if prefer candidate.value best.value then candidate else best

variable {inv : Invocation} {prefer : Float → Float → Bool}

theorem number_of_drop {index : Nat} {n : Number} {rest : List (Option Number)}
    (h : (inv.args.map Expr.number?).drop index = some n :: rest) : inv.number index = .ok n := by
  have hget : (inv.args.map Expr.number?)[index]? = some (some n) := by
    rw [← List.head?_drop, h]
    rfl
  rw [List.getElem?_map, Option.map_eq_some_iff] at hget
  obtain ⟨a, ha, hn⟩ := hget
  exact Invocation.read_of_view ha hn "number"

/-- Over arguments that are numbers, the unit that is kept is the first one, and the first one to differ from
it ends the choice, whatever the best number is then. -/
theorem chooseFrom_of_numbers (ns : List Number) {count index : Nat} {best : Number} {seen : Option String}
    {rest : List (Option Number)} (h : (inv.args.map Expr.number?).drop index = ns.map some ++ rest) :
    chooseFrom inv prefer (ns.length + count) index best seen =
      match firstClash? (seen.toList ++ units ns) with
      | some (u, v) => .error ((Cause.unitClash inv.name u v).atSpan inv.span)
      | none => chooseFrom inv prefer count (index + ns.length) (ns.foldl (pick prefer) best)
          (seen.toList ++ units ns).head? := by
  induction ns generalizing index best seen with
  | nil => cases seen <;> simp [units, firstClash?]
  | cons n ns ih =>
    have hrest : (inv.args.map Expr.number?).drop (index + 1) = ns.map some ++ rest := by
      rw [← List.tail_drop, h]
      rfl
    rw [List.length_cons, Nat.add_right_comm, chooseFrom, number_of_drop h, units_cons]
    change (agree inv seen n.unit >>= fun unit =>
      chooseFrom inv prefer (ns.length + count) (index + 1) (pick prefer best n) unit) = _
    cases seen with
    | none =>
      have hagree : agree inv none n.unit = .ok n.unit := by cases n.unit <;> rfl
      rw [hagree]
      change chooseFrom inv prefer (ns.length + count) (index + 1) (pick prefer best n) n.unit = _
      rw [ih hrest, Nat.add_right_comm]
      rfl
    | some u =>
      cases n.unit with
      | none =>
        change chooseFrom inv prefer (ns.length + count) (index + 1) (pick prefer best n) (some u) = _
        rw [ih hrest, Nat.add_right_comm]
        rfl
      | some v =>
        by_cases huv : u = v
        · subst huv
          have hagain : firstClash? (u :: u :: units ns) = firstClash? (u :: units ns) := by
            simp [firstClash?]
          rw [agree, if_pos rfl]
          change chooseFrom inv prefer (ns.length + count) (index + 1) (pick prefer best n) (some u) = _
          rw [ih hrest, Nat.add_right_comm]
          change _ = match firstClash? (u :: u :: units ns) with
            | some (u, v) => _
            | none => _
          rw [hagain]
          rfl
        · have hfirst : firstClash? (u :: v :: units ns) = some (u, v) := by
            simp [firstClash?, Ne.symm huv]
          rw [agree, if_neg huv]
          change _ = match firstClash? (u :: v :: units ns) with
            | some (u, v) => _
            | none => _
          rw [hfirst]
          rfl

theorem choose_of_numbers {first : Number} {ns : List Number} {rest : List (Option Number)}
    (h : inv.args.map Expr.number? = (first :: ns).map some ++ rest) :
    choose prefer inv =
      match firstClash? (units (first :: ns)) with
      | some (u, v) => .error ((Cause.unitClash inv.name u v).atSpan inv.span)
      | none => do
        let best ← chooseFrom inv prefer rest.length (1 + ns.length) (ns.foldl (pick prefer) first)
          (units (first :: ns)).head?
        return inv.answer (.number best) := by
  have hlength : inv.args.length = ns.length + rest.length + 1 := by
    rw [← List.length_map Expr.number?, h, List.length_append, List.length_map, List.length_cons]
    omega
  have hexpect : inv.expect (.range 1 none) = .ok () := by
    rw [Invocation.expect, if_pos]
    simp [Arity.accepts, hlength]
  have hfirst : inv.number 0 = .ok first := number_of_drop (by rw [List.drop_zero, h]; rfl)
  have hrest : (inv.args.map Expr.number?).drop 1 = ns.map some ++ rest := by
    rw [h]
    rfl
  rw [choose, hexpect, hfirst]
  change (chooseFrom inv prefer (inv.args.length - 1) 1 first first.unit >>= fun best =>
    pure (inv.answer (.number best))) = _
  rw [hlength, Nat.add_sub_cancel, chooseFrom_of_numbers ns hrest, ← units_cons]
  cases firstClash? (units (first :: ns)) <;> rfl

/-- Ranked before all that stand to its left, and after none to its right. -/
def FirstLeast {K : Type} [LinearOrder K] (key : Float → K) (ns : List Number) (r : Number) : Prop :=
  ∃ before after, ns = before ++ r :: after ∧ (∀ n ∈ before, key r.value < key n.value) ∧
    ∀ n ∈ after, key r.value ≤ key n.value

section Ranked

variable {K : Type} [LinearOrder K] {key : Float → K} {ns : List Number} {r : Number}

theorem FirstLeast.le (h : FirstLeast key ns r) {n : Number} (hn : n ∈ ns) : key r.value ≤ key n.value := by
  obtain ⟨before, after, rfl, hbefore, hafter⟩ := h
  rcases List.mem_append.mp hn with hn | hn
  · exact (hbefore n hn).le
  · rcases List.mem_cons.mp hn with rfl | hn
    · exact le_rfl
    · exact hafter n hn

theorem FirstLeast.mem (h : FirstLeast key ns r) : r ∈ ns := by
  obtain ⟨before, after, rfl, -, -⟩ := h
  exact List.mem_append_right before List.mem_cons_self

theorem firstLeast_foldl_pick (ns : List Number) (first : Number)
    (h : ∀ n ∈ first :: ns, ∀ m ∈ first :: ns, prefer n.value m.value = true ↔ key n.value < key m.value) :
    FirstLeast key (first :: ns) (ns.foldl (pick prefer) first) := by
  induction ns generalizing first with
  | nil => exact ⟨[], [], rfl, nofun, nofun⟩
  | cons n ns ih =>
    rw [List.foldl_cons, pick]
    by_cases hn : key n.value < key first.value
    · rw [if_pos ((h n (by simp) first (by simp)).mpr hn)]
      have hleast := ih n fun x hx y hy => h x (List.mem_cons_of_mem first hx) y (List.mem_cons_of_mem first hy)
      have hlt : key (ns.foldl (pick prefer) n).value < key first.value :=
        (hleast.le List.mem_cons_self).trans_lt hn
      obtain ⟨before, after, hsplit, hbefore, hafter⟩ := hleast
      exact ⟨first :: before, after, congrArg _ hsplit, List.forall_mem_cons.mpr ⟨hlt, hbefore⟩, hafter⟩
    · rw [if_neg fun hp => hn ((h n (by simp) first (by simp)).mp hp)]
      have hsub : ∀ x ∈ first :: ns, x ∈ first :: n :: ns := by simp +contextual
      have hleast := ih first fun x hx y hy => h x (hsub x hx) y (hsub y hy)
      obtain ⟨before, after, hsplit, hbefore, hafter⟩ := hleast
      cases before with
      | nil =>
        obtain ⟨hr, rfl⟩ := List.cons.inj hsplit
        refine ⟨[], n :: ns, by rw [List.nil_append, ← hr], nofun, List.forall_mem_cons.mpr ⟨?_, hafter⟩⟩
        rw [← hr]
        exact not_lt.mp hn
      | cons b before =>
        obtain ⟨rfl, hns⟩ := List.cons.inj hsplit
        obtain ⟨hlt, hbefore⟩ := List.forall_mem_cons.mp hbefore
        refine ⟨first :: n :: before, after, congrArg (first :: n :: ·) hns, ?_, hafter⟩
        exact List.forall_mem_cons.mpr ⟨hlt, List.forall_mem_cons.mpr ⟨hlt.trans_le (not_lt.mp hn), hbefore⟩⟩

end Ranked

end Library

namespace Builtin

/-- The function chooses among numbers, and this is what it takes for better. -/
inductive Chooses : Builtin → (Float → Float → Prop) → Prop
  | least : Chooses .min fun x y => x < y
  | greatest : Chooses .max fun x y => y < x

theorem Chooses.exists_key {b : Builtin} {better : Float → Float → Prop} (h : b.Chooses better) :
    ∃ (K : Type) (_ : LinearOrder K) (key : Float → K) (prefer : Float → Float → Bool),
      b.apply = Library.choose prefer ∧ (∀ x y, prefer x y = true ↔ better x y) ∧
      ∀ x y : Float, x.isNaN = false → y.isNaN = false →
        (better x y ↔ key x < key y) ∧ ((x == y) = true ↔ key x = key y) := by
  cases h with
  | least =>
    refine ⟨_, inferInstance, FloatOrder.place, fun x y => decide (x < y), rfl, fun x y => decide_eq_true_iff,
      fun x y hx hy => ?_⟩
    exact ⟨FloatOrder.lt_iff hx hy, FloatOrder.beq_iff hx hy⟩
  | greatest =>
    refine ⟨_, inferInstance, fun x => OrderDual.toDual (FloatOrder.place x), fun x y => decide (y < x), rfl,
      fun x y => decide_eq_true_iff, fun x y hx hy => ?_⟩
    exact ⟨FloatOrder.lt_iff hy hx, FloatOrder.beq_iff hx hy⟩

end Builtin

theorem Expr.map_number? {es : List Expr} (h : ∀ e ∈ es, (e.number?).isSome = true) :
    es.map number? = (es.filterMap number?).map some := by
  induction es with
  | nil => rfl
  | cons e es ih =>
    obtain ⟨he, hes⟩ := List.forall_mem_cons.mp h
    obtain ⟨n, hn⟩ := Option.isSome_iff_exists.mp he
    rw [List.map_cons, List.filterMap_cons, hn, ih hes]
    rfl

/-- The arguments are numbers, at least one, and none of them is a NaN. -/
structure Invocation.OfNumbers (inv : Invocation) : Prop where
  nonempty : inv.args ≠ []
  number : ∀ a ∈ inv.args, (a.number?).isSome = true
  notNaN : ∀ n ∈ inv.numbers, n.value.isNaN = false

theorem Invocation.OfNumbers.perm {inv inv' : Invocation} (h : inv.OfNumbers) (hperm : inv'.args.Perm inv.args) :
    inv'.OfNumbers where
  nonempty := fun hnil => h.nonempty (List.nil_perm.mp (hnil ▸ hperm))
  number := fun a ha => h.number a (hperm.mem_iff.mp ha)
  notNaN := fun n hn => h.notNaN n ((hperm.filterMap _).mem_iff.mp hn)

theorem Number.Clash.perm {ns ns' : List Number} (hperm : ns'.Perm ns) : Clash ns' ↔ Clash ns := by
  simp only [Clash, hperm.mem_iff]

namespace Builtin.Chooses

variable {b : Builtin} {better : Float → Float → Prop} (hb : b.Chooses better)
include hb

theorem beq_of_not_better {x y : Float} (hx : x.isNaN = false) (hy : y.isNaN = false)
    (hxy : ¬ better x y) (hyx : ¬ better y x) : (x == y) = true := by
  obtain ⟨K, _, key, prefer, -, -, hkey⟩ := hb.exists_key
  have hle : key y ≤ key x := not_lt.mp fun hlt => hxy ((hkey x y hx hy).1.mpr hlt)
  have hge : key x ≤ key y := not_lt.mp fun hlt => hyx ((hkey y x hy hx).1.mpr hlt)
  exact (hkey x y hx hy).2.mpr (hge.antisymm hle)

theorem apply_eq {inv : Invocation} (h : inv.OfNumbers) :
    ∃ r, Number.Leftmost better inv.numbers r ∧
      b.apply inv = match Number.firstClash? (Number.units inv.numbers) with
        | some (u, v) => .error ((Cause.unitClash inv.name u v).atSpan inv.span)
        | none => .ok (inv.answer (.number r)) := by
  obtain ⟨K, _, key, prefer, happly, hprefer, hkey⟩ := hb.exists_key
  have hnumbers : inv.args.map Expr.number? = inv.numbers.map some := Expr.map_number? h.number
  have hnotNaN := h.notNaN
  cases hns : inv.numbers with
  | nil =>
    rw [hns, List.map_nil, List.map_eq_nil_iff] at hnumbers
    exact absurd hnumbers h.nonempty
  | cons first ns =>
    rw [hns] at hnumbers hnotNaN
    have hrank : ∀ n ∈ first :: ns, ∀ m ∈ first :: ns,
        better n.value m.value ↔ key n.value < key m.value :=
      fun n hn m hm => (hkey n.value m.value (hnotNaN n hn) (hnotNaN m hm)).1
    have hleast : Library.FirstLeast key (first :: ns) (ns.foldl (Library.pick prefer) first) :=
      Library.firstLeast_foldl_pick ns first fun n hn m hm =>
        (hprefer n.value m.value).trans (hrank n hn m hm)
    refine ⟨ns.foldl (Library.pick prefer) first, ?_, ?_⟩
    · have hr := hleast.mem
      have hle : ∀ n ∈ first :: ns, key _ ≤ key n.value := fun n hn => hleast.le hn
      obtain ⟨before, after, hsplit, hbefore, -⟩ := hleast
      refine ⟨before, after, hsplit, fun n hn hlt => ?_, fun n hn => ⟨_, hr, ?_⟩⟩
      · exact not_lt.mpr (hle n hn) ((hrank n hn _ hr).mp hlt)
      · have hmem : n ∈ first :: ns := hsplit ▸ List.mem_append_left _ hn
        exact (hrank _ hr n hmem).mpr (hbefore n hn)
    · have hall : inv.args.map Expr.number? = (first :: ns).map some ++ [] := by
        rw [hnumbers, List.append_nil]
      rw [happly, Library.choose_of_numbers hall]
      rfl

theorem fault_of_apply {inv : Invocation} (h : inv.OfNumbers) {f : Fault} (hf : b.apply inv = .error f) :
    ∃ u v, Number.firstClash? (Number.units inv.numbers) = some (u, v) ∧
      f = (Cause.unitClash inv.name u v).atSpan inv.span := by
  obtain ⟨r, -, happly⟩ := hb.apply_eq h
  rw [happly] at hf
  split at hf
  · next u v hclash =>
    cases hf
    exact ⟨u, v, hclash, rfl⟩
  · cases hf

theorem leftmost_of_apply {inv : Invocation} (h : inv.OfNumbers) {n : Number}
    (hn : b.apply inv = .ok (inv.answer (.number n))) : Number.Leftmost better inv.numbers n := by
  obtain ⟨r, hr, happly⟩ := hb.apply_eq h
  rw [happly] at hn
  split at hn
  · cases hn
  · cases hn
    exact hr

theorem exists_value_iff {inv : Invocation} (h : inv.OfNumbers) :
    (∃ v, b.apply inv = .ok v) ↔ ¬ Number.Clash inv.numbers := by
  obtain ⟨r, -, happly⟩ := hb.apply_eq h
  rw [happly, Number.clash_iff]
  cases Number.firstClash? (Number.units inv.numbers) with
  | none => simp
  | some p => exact iff_of_false nofun fun hclash => hclash ⟨p.1, p.2, rfl⟩

end Builtin.Chooses

/-- Whether there is a choice and what its value is do not depend on the order of the arguments. -/
theorem choice_is_leftmost_best {b : Builtin} {better : Float → Float → Prop} (hb : b.Chooses better)
    {inv : Invocation} (h : inv.OfNumbers) :
    ((∃ name u v s, b.apply inv = .error ⟨.unitClash name u v, s⟩) ↔ Number.Clash inv.numbers) ∧
    (∀ f, b.apply inv = .error f → ∃ u v, Number.firstClash? (Number.units inv.numbers) = some (u, v) ∧
      f = (Cause.unitClash inv.name u v).atSpan inv.span) ∧
    (¬ Number.Clash inv.numbers →
      ∃ r, Number.Leftmost better inv.numbers r ∧ b.apply inv = .ok (inv.answer (.number r))) ∧
    ∀ inv' : Invocation, inv'.args.Perm inv.args →
      ((∃ v, b.apply inv' = .ok v) ↔ ∃ v, b.apply inv = .ok v) ∧
      ∀ n n' : Number, b.apply inv = .ok (inv.answer (.number n)) →
        b.apply inv' = .ok (inv'.answer (.number n')) → (n'.value == n.value) = true := by
  obtain ⟨r, hr, happly⟩ := hb.apply_eq h
  refine ⟨⟨?_, fun hclash => ?_⟩, fun f hf => hb.fault_of_apply h hf, fun hclash => ⟨r, hr, ?_⟩,
    fun inv' hperm => ?_⟩
  · rintro ⟨name, u, v, s, hf⟩
    obtain ⟨u, v, hfirst, -⟩ := hb.fault_of_apply h hf
    exact Number.clash_iff.mpr ⟨u, v, hfirst⟩
  · obtain ⟨u, v, hfirst⟩ := Number.clash_iff.mp hclash
    rw [hfirst] at happly
    exact ⟨inv.name, u, v, some inv.span, happly⟩
  · rw [happly, Number.firstClash?_of_not_clash hclash]
  · have h' := h.perm hperm
    have hnumbers : inv'.numbers.Perm inv.numbers := hperm.filterMap _
    refine ⟨?_, fun n n' hn hn' => ?_⟩
    · rw [hb.exists_value_iff h', hb.exists_value_iff h, Number.Clash.perm hnumbers]
    · obtain ⟨before, after, hsplit, hbest, -⟩ := hb.leftmost_of_apply h hn
      obtain ⟨before', after', hsplit', hbest', -⟩ := hb.leftmost_of_apply h' hn'
      have hmem : n ∈ inv.numbers := hsplit ▸ List.mem_append_right before List.mem_cons_self
      have hmem' : n' ∈ inv'.numbers := hsplit' ▸ List.mem_append_right before' List.mem_cons_self
      exact hb.beq_of_not_better (h'.notNaN n' hmem') (h.notNaN n hmem)
        (hbest n' (hnumbers.mem_iff.mp hmem')) (hbest' n (hnumbers.mem_iff.mpr hmem))

/-- Two arguments are greatest: the one without a unit if it is met first. The empty unit does not agree with
another one, though the best argument before it has none. -/
theorem choice_is_leftmost_best_of_equals :
    let number (x : Float) (unit : Option String) (s : Span) : Expr := .atom (.number ⟨x, unit⟩) s
    let args := [number 3 (some "px") ⟨4, 7⟩, number 7 none ⟨8, 9⟩, number 7 (some "px") ⟨10, 13⟩]
    let inv : Invocation := ⟨⟨"max", ⟨0, 14⟩⟩, args⟩
    let inv' : Invocation := ⟨⟨"max", ⟨0, 14⟩⟩, args.reverse⟩
    let clashing : Invocation := ⟨⟨"Min", ⟨0, 20⟩⟩, args ++ [number 8 (some "") ⟨14, 15⟩]⟩
    inv.OfNumbers ∧ clashing.OfNumbers ∧ inv'.args.Perm inv.args ∧
      Builtin.max.apply inv = .ok (number 7 none ⟨0, 14⟩) ∧
      Builtin.max.apply inv' = .ok (number 7 (some "px") ⟨0, 14⟩) ∧
      ((7 : Float) == 7) = true ∧
      Builtin.min.apply clashing = .error ((Cause.unitClash "Min" "px" "").atSpan ⟨0, 20⟩) := by
  intro number args inv inv' clashing
  have h : inv.OfNumbers := ⟨nofun, by decide, by decide⟩
  have hclashing : clashing.OfNumbers := ⟨nofun, by decide, by decide⟩
  have hperm : inv'.args.Perm inv.args := args.reverse_perm
  have hvalue : Builtin.max.apply inv = .ok (number 7 none ⟨0, 14⟩) := rfl
  have hvalue' : Builtin.max.apply inv' = .ok (number 7 (some "px") ⟨0, 14⟩) := rfl
  have hsame := ((choice_is_leftmost_best .greatest h).2.2.2 inv' hperm).2 _ _ hvalue hvalue'
  have hfault : ∃ f, Builtin.min.apply clashing = .error f := ⟨_, rfl⟩
  obtain ⟨f, hf⟩ := hfault
  obtain ⟨u, v, hfirst, rfl⟩ := (choice_is_leftmost_best .least hclashing).2.1 f hf
  have hunits : Number.firstClash? (Number.units clashing.numbers) = some ("px", "") := by decide
  cases hunits.symm.trans hfirst
  exact ⟨h, hclashing, hperm, hvalue, hvalue', hsame, hf⟩

end StyleValue
