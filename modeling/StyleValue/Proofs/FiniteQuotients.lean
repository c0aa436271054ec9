import Mathlib.Algebra.Group.Nat.Defs
import StyleValue.Decimal.Binary

set_option autoImplicit false

namespace StyleValue.FiniteQuotients

open Float.Model Float.Model.UnpackedFloat

/-- There is room for the value, so that it is not put together as an infinity. -/
def Fits : UnpackedFloat → Prop
  | .zero _ => True
  | .finite _ _ e _ => e ≤ 971
  | .infinity _ | .notANumber => False

/-- What a value is taken apart into. All bits of the exponent are set for what is not finite. -/
theorem unpack_shape (b : BitVec Format.binary64.numBits) :
    match UnpackedFloat.unpack Format.binary64 b with
    | .infinity _ | .notANumber => unpackExponent b = -1#_
    | .zero _ => unpackExponent b ≠ -1#_
    | .finite _ m e _ => unpackExponent b ≠ -1#_ ∧ m < 2 ^ 53 ∧ e ≤ 971 := by
  have hbias : (Format.binary64.exponentBias : Int) = 1023 := rfl
  unfold UnpackedFloat.unpack
  dsimp only
  by_cases hall : unpackExponent b = -1#_
  · rw [if_pos hall]
    by_cases hzero : unpackMantissa b = 0#_
    · rwa [if_pos hzero]
    · rwa [if_neg hzero]
  · rw [if_neg hall]
    by_cases hleast : unpackExponent b = 0#_
    · rw [if_pos hleast]
      by_cases hzero : unpackMantissa b = 0#_
      · rwa [dif_pos hzero]
      · rw [dif_neg hzero]
        refine ⟨hall, Nat.lt_trans (unpackMantissa b).isLt (by decide), ?_⟩
        rw [hbias, hleast]
        decide
    · rw [if_neg hleast]
      have hlt : (unpackExponent b).toNat < 2048 := (unpackExponent b).isLt
      have hne : (unpackExponent b).toNat ≠ 2047 := fun heq => hall (BitVec.eq_of_toNat_eq heq)
      exact ⟨hall, (1#1 ++ unpackMantissa b).isLt, by rw [hbias]; omega⟩

theorem isFinite_unpack_iff {b : BitVec Format.binary64.numBits} :
    (UnpackedFloat.unpack Format.binary64 b).isFinite = true ↔ unpackExponent b ≠ -1#_ := by
  have hshape := unpack_shape b
  generalize UnpackedFloat.unpack Format.binary64 b = u at hshape ⊢
  cases u with
  | infinity s => exact iff_of_false Bool.false_ne_true fun hne => hne hshape
  | notANumber => exact iff_of_false Bool.false_ne_true fun hne => hne hshape
  | zero s => exact iff_of_true rfl hshape
  | finite s m e hm => exact iff_of_true rfl hshape.1

theorem isFinite_pack_iff {u : UnpackedFloat} : (Float.Model.pack u).isFinite = true ↔ Fits u := by
  change (UnpackedFloat.unpack Format.binary64 (UnpackedFloat.pack Format.binary64 u)).isFinite = true ↔ _
  rw [isFinite_unpack_iff]
  cases u with
  | notANumber => exact iff_of_false (fun h => h unpackExponent_packComponents) id
  | infinity s => exact iff_of_false (fun h => h unpackExponent_packComponents) id
  | zero s =>
    have hexponent : unpackExponent (packedZero Format.binary64 s) = 0 := unpackExponent_packComponents
    exact iff_of_true (fun h => absurd (hexponent.symm.trans h) (by decide)) trivial
  | finite s m e hm =>
    change unpackExponent (if 2 ^ 11 ≤ (e + (1023 : Nat) + (52 : Nat)).toNat + 1 then
        packedInfinity Format.binary64 s
      else if m.log2 + 1 = Format.binary64.mantissaBits then
        packComponents Format.binary64 s (.ofNat _ (e + (1023 : Nat) + (52 : Nat)).toNat) (.ofNat _ m)
      else packComponents Format.binary64 s 0#_ (.ofNat _ m)) ≠ -1#_ ↔ e ≤ 971
    split
    · exact iff_of_false (fun h => h unpackExponent_packComponents) (by omega)
    · have hlt : (e + (1023 : Nat) + (52 : Nat)).toNat < 2 ^ 11 := by omega
      refine iff_of_true ?_ (by omega)
      split
      · rw [unpackExponent_packComponents, ne_eq, ← BitVec.toNat_inj, BitVec.toNat_ofNat,
          Nat.mod_eq_of_lt hlt]
        change _ ≠ 2047
        omega
      · rw [unpackExponent_packComponents]
        decide

theorem shift_mantissa (em : ExtendedMantissa) (k : Nat) : (em >>> k).mantissa = em.mantissa / 2 ^ k := by
  induction k with
  | zero => exact (Nat.div_one _).symm
  | succ k ih =>
    change (em >>> k).mantissa / 2 = _
    rw [ih, Nat.div_div_eq_div_mul, Nat.pow_succ]

theorem roundedMantissa_le (em : ExtendedMantissa) : em.roundedMantissa ≤ em.mantissa + 1 := by
  rcases em with ⟨m, r, s⟩
  have hmod := Nat.mod_lt m (show 2 > 0 by decide)
  cases r <;> cases s <;>
    simp only [ExtendedMantissa.roundedMantissa, ExtendedMantissa.accuracy, Accuracy.roundToNearestEven]
  all_goals omega

theorem targetExponent_eq (t : Int) : Format.binary64.targetExponent t = max (t - 53) (-1074) := rfl

theorem log2_lt_of_lt {m n : Nat} (hn : 0 < n) (h : m < 2 ^ n) : m.log2 < n := by
  by_cases hm : m = 0
  · subst hm
    exact hn
  · exact (Nat.log2_lt hm).mpr h

theorem shift_exponent (m : Nat) (e : Int) (a : Accuracy) :
    (shiftToTargetExponent Format.binary64 m e a).2 = max e (max (totalExponent m e - 53) (-1074)) := by
  rw [shiftToTargetExponent, shiftToExponent, targetExponent_eq]
  dsimp only
  omega

theorem shift_mantissa_lt (m : Nat) (e : Int) (a : Accuracy) :
    (shiftToTargetExponent Format.binary64 m e a).1.mantissa < 2 ^ 53 := by
  have hstart : (ExtendedMantissa.ofMantissaAndAccuracy m a).mantissa = m := by
    rcases a with _ | o
    · rfl
    · cases o <;> rfl
  rw [shiftToTargetExponent, shiftToExponent, targetExponent_eq, totalExponent]
  dsimp only
  rw [shift_mantissa, hstart, Nat.div_lt_iff_lt_mul (Nat.two_pow_pos _), ← Nat.pow_add]
  exact Nat.lt_of_lt_of_le Nat.lt_log2_self (Nat.pow_le_pow_right (by decide) (by omega))

theorem fits_roundWithAccuracy {s : Sign} {m : Nat} {e : Int} {a : Accuracy} (he : e ≤ 970)
    (htotal : totalExponent m e ≤ 1023) : Fits (roundWithAccuracy Format.binary64 s m e a) := by
  have hfirst := shift_exponent m e a
  have hmantissa := shift_mantissa_lt m e a
  unfold roundWithAccuracy
  generalize shiftToTargetExponent Format.binary64 m e a = first at hfirst hmantissa ⊢
  obtain ⟨em, e₁⟩ := first
  have hsecond := shift_exponent em.roundedMantissa e₁ .exact
  have hrounded := roundedMantissa_le em
  have hlog : em.roundedMantissa.log2 < 54 := log2_lt_of_lt (by decide) (by dsimp at hmantissa; omega)
  dsimp only at hfirst hsecond ⊢
  by_cases hzero : (shiftToTargetExponent Format.binary64 em.roundedMantissa e₁ .exact).1.mantissa = 0
  · rw [dif_pos hzero]
    trivial
  · rw [dif_neg hzero]
    change (shiftToTargetExponent Format.binary64 em.roundedMantissa e₁ .exact).2 ≤ 971
    rw [hsecond, totalExponent]
    omega

/-- Before it is rounded, the quotient is no larger than the sizes of the values make it, or it is tiny. -/
theorem divCore_bounds (m₁ : Nat) (e₁ : Int) {m₂ : Nat} (e₂ : Int) (h₂ : 0 < m₂) :
    (divCore Format.binary64 m₁ e₁ m₂ e₂).2.1 ≤
        max (totalExponent m₁ e₁ - totalExponent m₂ e₂ - 53) (-1074) ∧
      totalExponent (divCore Format.binary64 m₁ e₁ m₂ e₂).1 (divCore Format.binary64 m₁ e₁ m₂ e₂).2.1 ≤
        max (totalExponent m₁ e₁ - totalExponent m₂ e₂ + 1) (-1073) := by
  rw [divCore, targetExponent_eq]
  dsimp only
  generalize hd : totalExponent m₁ e₁ - totalExponent m₂ e₂ = d
  generalize ht : min (e₁ - e₂) (max (d - 53) (-1074)) = t
  refine ⟨by omega, ?_⟩
  generalize hk : (e₁ - e₂ - t).toNat = k
  rw [Nat.shiftLeft_eq, totalExponent]
  rw [totalExponent, totalExponent] at hd
  by_cases hq : m₁ * 2 ^ k / m₂ = 0
  · rw [hq]
    change ((0 : Nat) : Int) + 1 + t ≤ _
    omega
  · have hlog : (m₁ * 2 ^ k / m₂).log2 + m₂.log2 < m₁.log2 + 1 + k := by
      refine (Nat.pow_lt_pow_iff_right (show 1 < 2 by decide)).mp ?_
      calc 2 ^ ((m₁ * 2 ^ k / m₂).log2 + m₂.log2)
          = 2 ^ (m₁ * 2 ^ k / m₂).log2 * 2 ^ m₂.log2 := Nat.pow_add ..
        _ ≤ m₁ * 2 ^ k / m₂ * m₂ :=
          Nat.mul_le_mul (Nat.log2_self_le hq) (Nat.log2_self_le (Nat.ne_of_gt h₂))
        _ ≤ m₁ * 2 ^ k := Nat.div_mul_le_self ..
        _ < 2 ^ (m₁.log2 + 1) * 2 ^ k :=
          Nat.mul_lt_mul_of_pos_right Nat.lt_log2_self (Nat.two_pow_pos k)
        _ = 2 ^ (m₁.log2 + 1 + k) := (Nat.pow_add ..).symm
    omega

variable {x y : Float} {s : Sign} {m : Nat} {e : Int} {hm : 0 < m}

theorem isFinite_div_iff (hy : y.toModel.unpack = .finite s m e hm) (htwo : 2 ≤ totalExponent m e) :
    (x / y).isFinite = true ↔ x.isFinite = true := by
  change (Float.Model.pack (UnpackedFloat.div Format.binary64 x.toModel.unpack y.toModel.unpack)).isFinite
    = true ↔ x.toModel.unpack.isFinite = true
  rw [isFinite_pack_iff, hy]
  cases hx : x.toModel.unpack with
  | notANumber => exact iff_of_false id Bool.false_ne_true
  | infinity s' => exact iff_of_false id Bool.false_ne_true
  | zero s' => exact iff_of_true trivial rfl
  | finite s' m' e' hm' =>
    refine iff_of_true ?_ rfl
    have hshape := unpack_shape x.toModel.toBits.toBitVec
    rw [show UnpackedFloat.unpack Format.binary64 x.toModel.toBits.toBitVec = .finite s' m' e' hm' from hx]
      at hshape
    obtain ⟨-, hmantissa, hexponent⟩ := hshape
    have hlog : m'.log2 < 53 := log2_lt_of_lt (by decide) hmantissa
    have hsize : totalExponent m' e' ≤ 1024 := by
      rw [totalExponent]
      omega
    obtain ⟨hstart, hquotient⟩ := divCore_bounds m' e' e hm
    change Fits (roundWithAccuracy _ _ (divCore Format.binary64 m' e' m e).1
      (divCore Format.binary64 m' e' m e).2.1 _)
    exact fits_roundWithAccuracy (by omega) (by omega)

theorem isFinite_div_hundred (x : Float) : (x / 100).isFinite = true ↔ x.isFinite = true := by
  have hunpack : (100 : Float).toModel.unpack = .finite .positive 7036874417766400 (-46) (by decide) := rfl
  exact isFinite_div_iff hunpack (by decide)

end StyleValue.FiniteQuotients
