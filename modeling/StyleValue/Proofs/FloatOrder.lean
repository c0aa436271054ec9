import Mathlib.Algebra.Order.Ring.Int
import Mathlib.Data.Prod.Lex
import Mathlib.Order.Compare

/-!
The order of binary64 values. A value that is not a NaN has a place in a linear order, by its sign, then by its
exponent and then by its mantissa, and comparison is that of the places. So `<` is a strict weak order on these
values, and `==` is equality of place: the two zeros share theirs.
-/

set_option autoImplicit false

namespace StyleValue.FloatOrder

open Float.Model

/-- The place of a NaN is not used. -/
def unpackedPlace : UnpackedFloat → ℤ ×ₗ ℤ ×ₗ ℤ
  | .infinity .negative => toLex (-2, toLex (0, 0))
  | .finite .negative m e _ => toLex (-1, toLex (-e, -m))
  | .zero _ => toLex (0, toLex (0, 0))
  | .finite .positive m e _ => toLex (1, toLex (e, m))
  | .infinity .positive => toLex (2, toLex (0, 0))
  | .notANumber => toLex (3, toLex (0, 0))

def place (x : Float) : ℤ ×ₗ ℤ ×ₗ ℤ := unpackedPlace x.toModel.unpack

theorem compare_natCast (m n : ℕ) : compare (m : ℤ) n = compare m n := by
  rw [← cmp_eq_compare, ← cmp_eq_compare]
  exact Nat.strictMono_cast.cmp_map_eq m n

theorem compare_neg (a b : ℤ) : compare (-a) (-b) = (compare a b).swap := by
  have hanti : StrictAnti fun x : ℤ => -x := fun _ _ => Int.neg_lt_neg
  rw [← cmp_eq_compare, ← cmp_eq_compare, cmp_swap]
  exact hanti.cmp_map_eq a b

theorem compare_unpacked {u v : UnpackedFloat} (hu : u.isNaN = false) (hv : v.isNaN = false) :
    u.compare v = some (compare (unpackedPlace u) (unpackedPlace v)) := by
  cases u with
  | notANumber => cases hu
  | zero s => cases v with
    | notANumber => cases hv
    | zero s' => rfl
    | infinity s' => cases s' <;> rfl
    | finite s' m' e' h' => cases s' <;> rfl
  | infinity s => cases v with
    | notANumber => cases hv
    | zero s' => cases s <;> rfl
    | infinity s' => cases s <;> cases s' <;> rfl
    | finite s' m' e' h' => cases s <;> cases s' <;> rfl
  | finite s m e h => cases v with
    | notANumber => cases hv
    | zero s' => cases s <;> rfl
    | infinity s' => cases s <;> cases s' <;> rfl
    | finite s' m' e' h' =>
      cases s <;> cases s'
      · change some _ = some ((compare (-e) (-e')).then (compare (-(m : ℤ)) (-m')))
        rw [compare_neg, compare_neg, compare_natCast, Ordering.swap_then]
      · rfl
      · rfl
      · change some _ = some ((compare e e').then (compare (m : ℤ) m'))
        rw [compare_natCast]

variable {x y : Float} (hx : x.isNaN = false) (hy : y.isNaN = false)
include hx hy

theorem lt_iff : x < y ↔ place x < place y := by
  change decide ((x.toModel.unpack.compare y.toModel.unpack == some .lt) = true) = true ↔ _
  rw [decide_eq_true_iff, beq_iff_eq, compare_unpacked hx hy, Option.some_inj, compare_lt_iff_lt]
  rfl

theorem beq_iff : (x == y) = true ↔ place x = place y := by
  change (x.toModel.unpack.compare y.toModel.unpack == some .eq) = true ↔ _
  rw [beq_iff_eq, compare_unpacked hx hy, Option.some_inj, compare_eq_iff_eq]
  rfl

end StyleValue.FloatOrder
