import Mathlib.Algebra.Order.Field.Rat
import Mathlib.Tactic.Linarith
import Mathlib.Tactic.Positivity
import StyleValue.Css
import StyleValue.Proofs.DecimalNumerals

set_option autoImplicit false

namespace StyleValue

namespace Decimal

theorem Rounding.abs_quotient_halfEven_sub_le (num : Nat) {den : Nat} (hden : 0 < den) :
    |(Rounding.halfEven.quotient num den : ℚ) - num / den| ≤ 1 / 2 := by
  have hpos : (0 : ℚ) < den := by exact_mod_cast hden
  rw [natCast_div_eq num hden, quotient]
  have hrest : num % den < den := Nat.mod_lt num hden
  generalize num / den = below
  generalize num % den = rest at hrest ⊢
  have hnonneg : (0 : ℚ) ≤ rest / den := by positivity
  have hle : (rest : ℚ) / den ≤ 1 := by
    rw [div_le_one hpos]
    exact_mod_cast hrest.le
  split
  · next hup =>
    have hhalf : den ≤ 2 * rest := by
      rcases Bool.or_eq_true_iff.mp hup with h | h
      · exact Nat.le_of_lt (of_decide_eq_true h)
      · exact (beq_iff_eq.mp (Bool.and_eq_true_iff.mp h).1).ge
    have hge : (1 : ℚ) / 2 ≤ rest / den := by
      rw [div_le_div_iff₀ two_pos hpos]
      exact_mod_cast (by omega : 1 * den ≤ rest * 2)
    rw [abs_le]
    push_cast
    constructor <;> linarith
  · next hdown =>
    have hhalf : 2 * rest ≤ den := by
      by_contra h
      exact hdown (Bool.or_eq_true_iff.mpr (.inl (decide_eq_true (by omega))))
    have hsmall : (rest : ℚ) / den ≤ 1 / 2 := by
      rw [div_le_div_iff₀ hpos two_pos]
      exact_mod_cast (by omega : rest * 2 ≤ 1 * den)
    rw [abs_le]
    constructor <;> linarith

namespace Binary

theorem denominator_pos (b : Binary) : 0 < b.denominator := Nat.pow_pos (by decide)

theorem numerator_div_denominator (b : Binary) :
    (b.numerator : ℚ) / b.denominator = b.mantissa * 2 ^ b.exponent := by
  obtain ⟨negative, mantissa, exponent⟩ := b
  change ((mantissa * 2 ^ exponent.toNat : Nat) : ℚ) / ((2 ^ (-exponent).toNat : Nat) : ℚ) = _
  push_cast
  cases exponent with
  | ofNat n => simp
  | negSucc n =>
    rw [zpow_negSucc, Int.toNat_negSucc, pow_zero, mul_one, Int.neg_negSucc, div_eq_mul_inv]
    rfl

def value (b : Binary) : ℚ := (if b.negative then -1 else 1) * (b.mantissa * 2 ^ b.exponent)

end Binary

theorem Fixed.abs_value_ofBinary_sub_le (b : Binary) :
    |(Fixed.ofBinary b).numeral.value - b.value| ≤ 5 / 10 ^ 9 := by
  have hround := Rounding.abs_quotient_halfEven_sub_le (b.numerator * one) b.denominator_pos
  have hunits : ((b.numerator * one : Nat) : ℚ) / b.denominator = 10 ^ 8 * (b.mantissa * 2 ^ b.exponent) := by
    rw [← b.numerator_div_denominator, Nat.cast_mul, mul_comm, mul_div_assoc]
    rfl
  rw [hunits] at hround
  rw [value_numeral, Binary.value]
  change |(if b.negative then -1 else 1) * ((b.scaled .halfEven one : ℚ) / 10 ^ 8) - _| ≤ _
  rw [← mul_sub, abs_mul]
  have hsign : |if b.negative then (-1 : ℚ) else 1| = 1 := by split <;> simp
  rw [hsign, one_mul]
  change |(b.scaled .halfEven one : ℚ) - 10 ^ 8 * (b.mantissa * 2 ^ b.exponent)| ≤ 1 / 2 at hround
  rw [abs_le] at hround ⊢
  generalize (b.mantissa : ℚ) * 2 ^ b.exponent = exact at hround ⊢
  constructor <;> linarith

def exactValue (x : Float) : ℚ :=
  match x.toModel.unpack with
  | .finite sign mantissa exponent _ => sign.apply mantissa * 2 ^ exponent
  | .zero _ | .infinity _ | .notANumber => 0

theorem exists_ofFloat? {x : Float} (h : x.isFinite = true) :
    ∃ b, Binary.ofFloat? x = some b ∧ b.value = exactValue x := by
  change x.toModel.unpack.isFinite = true at h
  unfold Binary.ofFloat? exactValue
  cases hx : x.toModel.unpack with
  | notANumber =>
    rw [hx] at h
    cases h
  | infinity s =>
    rw [hx] at h
    cases h
  | zero s =>
    refine ⟨_, rfl, ?_⟩
    simp [Binary.value]
  | finite s m e hm =>
    refine ⟨_, rfl, ?_⟩
    cases s with
    | negative =>
      change -1 * (m * 2 ^ e : ℚ) = ((-m : Int) : ℚ) * 2 ^ e
      push_cast
      rw [neg_one_mul, neg_mul]
    | positive =>
      change 1 * (m * 2 ^ e : ℚ) = ((m : Int) : ℚ) * 2 ^ e
      rw [one_mul, Int.cast_natCast]

theorem exists_numeral {x : Float} (h : x.isFinite = true) :
    ∃ d : Numeral, d.Canonical ∧ |d.value - exactValue x| ≤ 5 / 10 ^ 9 ∧
      ∀ compress, text x compress = (if compress then d.short else d).text := by
  obtain ⟨b, hb, hvalue⟩ := exists_ofFloat? h
  have hcanonical := (Fixed.ofBinary b).canonical_numeral
  have htrimmed : trimmed (padded x) = (Fixed.ofBinary b).numeral.text.toList := by
    rw [padded, hb]
    exact (Fixed.ofBinary b).trimmed_text
  refine ⟨(Fixed.ofBinary b).numeral, hcanonical, ?_, fun compress => ?_⟩
  · rw [← hvalue]
    exact Fixed.abs_value_ofBinary_sub_le b
  · rw [text, htrimmed, hcanonical.shortened_text, ← apply_ite String.toList, ← apply_ite Numeral.text,
      String.ofList_toList]

end Decimal

theorem printed_numbers_are_canonical_and_close (n : Number) (h : n.value.isFinite = true) :
    ∃ d : Decimal.Numeral, d.Canonical ∧ n.css false = d.text ++ n.unitText ∧
      |d.value - Decimal.exactValue n.value| ≤ 5 / 10 ^ 9 ∧
      n.css true = d.short.text ++ n.unitText ∧ d.short.value = d.value ∧
      d.short.whole ++ d.short.fraction ≠ [] := by
  obtain ⟨d, hcanonical, hclose, htext⟩ := Decimal.exists_numeral h
  have hcss (compress : Bool) : n.css compress = (if compress then d.short else d).text ++ n.unitText :=
    congrArg (· ++ n.unitText) (htext compress)
  exact ⟨d, hcanonical, hcss false, hclose, hcss true, d.value_short, hcanonical.short_ne_nil⟩

/-- A tenth below zero, which no float is. -/
theorem printed_numbers_are_canonical_and_close_of_tenth :
    let n : Number := ⟨.neg (.ofScientific 1 true 1), some "em"⟩
    n.css false = "-0.1em" ∧ n.css true = "-.1em" ∧
      ∃ d : Decimal.Numeral, d.Canonical ∧ "-0.1em" = d.text ++ "em" ∧
        |d.value - Decimal.exactValue n.value| ≤ 5 / 10 ^ 9 ∧ "-.1em" = d.short.text ++ "em" := by
  intro n
  have hfinite : n.value.isFinite = true := by decide +kernel
  have hlong : n.css false = "-0.1em" := by decide +kernel
  have hshort : n.css true = "-.1em" := by decide +kernel
  obtain ⟨d, hcanonical, htext, hclose, hcompressed, -, -⟩ := printed_numbers_are_canonical_and_close n hfinite
  exact ⟨hlong, hshort, d, hcanonical, hlong ▸ htext, hclose, hshort ▸ hcompressed⟩

end StyleValue
