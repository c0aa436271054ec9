import Mathlib.Algebra.Order.Field.Basic
import Mathlib.Data.Rat.Defs
import Mathlib.Tactic.FieldSimp
import Mathlib.Tactic.Ring
import StyleValue.Decimal.Fixed

set_option autoImplicit false

namespace StyleValue.Decimal

theorem natCast_div_eq (num : Nat) {den : Nat} (hden : 0 < den) :
    (num : ℚ) / den = (num / den : Nat) + (num % den : Nat) / den := by
  have hne : (den : ℚ) ≠ 0 := by exact_mod_cast hden.ne'
  have hsplit : (num : ℚ) = den * (num / den : Nat) + (num % den : Nat) := by
    exact_mod_cast (Nat.div_add_mod num den).symm
  rw [div_eq_iff hne, add_mul, div_mul_cancel₀ _ hne, mul_comm]
  exact hsplit

structure Numeral where
  negative : Bool
  whole : List Char
  fraction : List Char
deriving DecidableEq, Repr

namespace Numeral

def pointed : List Char → List Char
  | [] => []
  | digit :: digits => '.' :: digit :: digits

def text (d : Numeral) : String :=
  (if d.negative then "-" else "") ++ String.ofList d.whole ++ String.ofList (pointed d.fraction)

theorem pointed_eq_nil_iff {digits : List Char} : pointed digits = [] ↔ digits = [] := by
  cases digits <;> simp [pointed]

theorem toList_text (d : Numeral) :
    d.text.toList = (if d.negative then ['-'] else []) ++ d.whole ++ pointed d.fraction := by
  rw [text]
  split <;> simp

/-- All digits as one natural number, over the power of ten that the point stands for. -/
def value (d : Numeral) : ℚ :=
  (if d.negative then -1 else 1) * (Nat.ofDigitChars 10 (d.whole ++ d.fraction) 0 / 10 ^ d.fraction.length)

structure Canonical (d : Numeral) : Prop where
  isDigit : ∀ c ∈ d.whole ++ d.fraction, c.isDigit = true
  whole_ne_nil : d.whole ≠ []
  leading : d.whole.head? = some '0' → d.whole = ['0']
  places : d.fraction.length ≤ 8
  trailing : d.fraction.getLast? ≠ some '0'
  sign : d.negative = true → ¬ (d.whole = ['0'] ∧ d.fraction = [])

def short (d : Numeral) : Numeral :=
  if d.whole = ['0'] ∧ d.fraction ≠ [] then { d with whole := [] } else d

theorem value_short (d : Numeral) : d.short.value = d.value := by
  unfold short
  split
  · next h => rw [value, value, h.1, List.nil_append, List.cons_append, List.nil_append, Nat.ofDigitChars_cons]
              rfl
  · rfl

theorem shortened_of_ne {cs : List Char} (h : ∀ rest, cs ≠ '0' :: '.' :: rest)
    (hsigned : ∀ rest, cs ≠ '-' :: '0' :: '.' :: rest) : shortened cs = cs := by
  unfold shortened
  split
  · exact absurd rfl (h _)
  · exact absurd rfl (hsigned _)
  · rfl

theorem Canonical.ne_sign {d : Numeral} (h : d.Canonical) (rest : List Char) :
    d.whole ++ pointed d.fraction ≠ '-' :: rest := by
  obtain ⟨c, cs, hc⟩ := List.exists_cons_of_ne_nil h.whole_ne_nil
  have hdigit : c.isDigit = true := h.isDigit c (by simp [hc])
  rw [hc]
  intro heq
  rw [(List.cons.inj heq).1] at hdigit
  cases hdigit

/-- A zero with a point behind it begins no other canonical numeral, since a whole part of more digits begins
with one that is not zero. -/
theorem Canonical.shortened_text {d : Numeral} (h : d.Canonical) :
    shortened d.text.toList = d.short.text.toList := by
  rw [short]
  split
  · next hshort =>
    obtain ⟨digit, digits, hfraction⟩ := List.exists_cons_of_ne_nil hshort.2
    rw [toList_text, toList_text, hshort.1, hfraction]
    cases d.negative <;> rfl
  · next hshort =>
    have hzero (rest : List Char) : d.whole ++ pointed d.fraction ≠ '0' :: '.' :: rest := by
      intro heq
      have hhead : d.whole.head? = some '0' := by
        rw [← List.head?_append_of_ne_nil d.whole h.whole_ne_nil, heq]
        rfl
      rw [h.leading hhead] at heq
      refine hshort ⟨h.leading hhead, fun hnil => ?_⟩
      rw [hnil] at heq
      cases heq
    rw [toList_text, List.append_assoc]
    cases d.negative with
    | true => exact shortened_of_ne (fun rest => nofun) fun rest heq => hzero rest (List.cons.inj heq).2
    | false => exact shortened_of_ne hzero fun rest => h.ne_sign _

theorem Canonical.short_ne_nil {d : Numeral} (h : d.Canonical) : d.short.whole ++ d.short.fraction ≠ [] := by
  unfold short
  split
  · next hshort => exact hshort.2
  · exact List.append_ne_nil_of_left_ne_nil h.whole_ne_nil _

end Numeral

section

variable {c d : Char} {cs : List Char}

theorem trimEnd_cons (c d : Char) (cs : List Char) :
    trimEnd c (d :: cs) = if trimEnd c cs = [] ∧ d = c then [] else d :: trimEnd c cs := rfl

theorem trimEnd_cons_of_ne (h : d ≠ c) (cs : List Char) : trimEnd c (d :: cs) = d :: trimEnd c cs :=
  if_neg fun hd => h hd.2

theorem exists_replicate_of_trimEnd (c : Char) (cs : List Char) :
    ∃ k, cs = trimEnd c cs ++ List.replicate k c := by
  induction cs with
  | nil => exact ⟨0, rfl⟩
  | cons d cs ih =>
    obtain ⟨k, hk⟩ := ih
    rw [trimEnd_cons]
    split
    · next h =>
      refine ⟨k + 1, ?_⟩
      rw [h.1, List.nil_append] at hk
      rw [List.nil_append, List.replicate_succ, h.2, ← hk]
    · exact ⟨k, congrArg (d :: ·) hk⟩

theorem getLast?_trimEnd (c : Char) (cs : List Char) : (trimEnd c cs).getLast? ≠ some c := by
  induction cs with
  | nil => nofun
  | cons d cs ih =>
    rw [trimEnd_cons]
    split
    · nofun
    · next h =>
      by_cases hnil : trimEnd c cs = []
      · rw [hnil, List.getLast?_singleton, ne_eq, Option.some.injEq]
        exact fun hd => h ⟨hnil, hd⟩
      · rw [List.getLast?_cons_of_ne_nil hnil]
        exact ih

theorem trimEnd_of_not_mem (h : c ∉ cs) : trimEnd c cs = cs := by
  induction cs with
  | nil => rfl
  | cons d cs ih =>
    rw [List.mem_cons, not_or] at h
    rw [trimEnd_cons_of_ne (Ne.symm h.1), ih h.2]

theorem trimEnd_append (c : Char) (xs ys : List Char) :
    trimEnd c (xs ++ ys) = if trimEnd c ys = [] then trimEnd c xs else xs ++ trimEnd c ys := by
  induction xs with
  | nil =>
    split
    · next h => exact h
    · rfl
  | cons d xs ih =>
    rw [List.cons_append, trimEnd_cons, ih]
    split
    · rfl
    · next h =>
      rw [if_neg fun hnil => h (List.append_eq_nil_iff.mp hnil.1).2]
      rfl

end

theorem trimEnd_point {xs ys : List Char} (hxs : '.' ∉ xs) (hys : '.' ∉ ys) :
    trimEnd '.' (xs ++ '.' :: ys) = xs ++ Numeral.pointed ys := by
  rw [trimEnd_append, trimEnd_cons, trimEnd_of_not_mem hys]
  cases ys with
  | nil => simp [trimEnd_of_not_mem hxs, Numeral.pointed]
  | cons y ys => simp [Numeral.pointed]

theorem length_trimEnd_le (c : Char) (cs : List Char) : (trimEnd c cs).length ≤ cs.length := by
  obtain ⟨k, hk⟩ := exists_replicate_of_trimEnd c cs
  have hlength := congrArg List.length hk
  rw [List.length_append] at hlength
  omega

theorem mem_of_mem_trimEnd {c x : Char} {cs : List Char} (h : x ∈ trimEnd c cs) : x ∈ cs := by
  obtain ⟨k, hk⟩ := exists_replicate_of_trimEnd c cs
  rw [hk]
  exact List.mem_append_left _ h

theorem ofDigitChars_trimEnd (cs : List Char) :
    (Nat.ofDigitChars 10 (trimEnd '0' cs) 0 / 10 ^ (trimEnd '0' cs).length : ℚ) =
      Nat.ofDigitChars 10 cs 0 / 10 ^ cs.length := by
  obtain ⟨k, hk⟩ := exists_replicate_of_trimEnd '0' cs
  generalize trimEnd '0' cs = kept at hk ⊢
  rw [hk, Nat.ofDigitChars_append, Nat.ofDigitChars_replicate_zero, List.length_append, List.length_replicate]
  push_cast
  rw [pow_add]
  field_simp

namespace Fixed

theorem digits_succ (n rest : Nat) :
    digits (n + 1) rest = (rest / 10 ^ n).digitChar :: digits n (rest % 10 ^ n) := rfl

theorem length_digits (n rest : Nat) : (digits n rest).length = n := by
  induction n generalizing rest with
  | zero => rfl
  | succ n ih => exact congrArg Nat.succ (ih _)

theorem div_pow_lt {n rest : Nat} (h : rest < 10 ^ (n + 1)) : rest / 10 ^ n < 10 :=
  Nat.div_lt_of_lt_mul (by rwa [← Nat.pow_succ])

theorem isDigit_of_mem_digits {n rest : Nat} (h : rest < 10 ^ n) : ∀ c ∈ digits n rest, c.isDigit = true := by
  induction n generalizing rest with
  | zero => nofun
  | succ n ih =>
    rw [digits_succ]
    refine List.forall_mem_cons.mpr ⟨?_, ih (Nat.mod_lt _ (Nat.pow_pos (by decide)))⟩
    rw [Nat.isDigit_digitChar]
    exact decide_eq_true (div_pow_lt h)

theorem ofDigitChars_digits {n rest : Nat} (h : rest < 10 ^ n) : Nat.ofDigitChars 10 (digits n rest) 0 = rest := by
  induction n generalizing rest with
  | zero => exact (Nat.lt_one_iff.mp h).symm
  | succ n ih =>
    rw [digits_succ, Nat.ofDigitChars_cons_digitChar_of_lt_ten (div_pow_lt h),
      Nat.ofDigitChars_eq_ofDigitChars_zero, length_digits, ih (Nat.mod_lt _ (Nat.pow_pos (by decide))),
      Nat.mul_zero, Nat.zero_add]
    exact Nat.div_add_mod rest (10 ^ n)

theorem trimEnd_digits_eq_nil_iff {n rest : Nat} (h : rest < 10 ^ n) :
    trimEnd '0' (digits n rest) = [] ↔ rest = 0 := by
  constructor
  · intro hnil
    obtain ⟨k, hk⟩ := exists_replicate_of_trimEnd '0' (digits n rest)
    rw [hnil, List.nil_append] at hk
    rw [← ofDigitChars_digits h, hk, Nat.ofDigitChars_replicate_zero, Nat.mul_zero]
  · rintro rfl
    induction n with
    | zero => rfl
    | succ n ih =>
      rw [digits_succ, Nat.zero_div, Nat.zero_mod, trimEnd_cons]
      exact if_pos ⟨ih (Nat.pow_pos (by decide)), rfl⟩

theorem toDigits_eq_zero_iff {n : Nat} : Nat.toDigits 10 n = ['0'] ↔ n = 0 := by
  constructor
  · intro h
    rw [← Nat.ofDigitChars_ten_toDigits (n := n), h]
    rfl
  · rintro rfl
    rfl

theorem head?_toDigits {n : Nat} (h : (Nat.toDigits 10 n).head? = some '0') : n = 0 := by
  induction n using Nat.strongRecOn with
  | ind n ih =>
    rw [Nat.toDigits_eq_if (by decide)] at h
    split at h
    · exact Nat.digitChar_eq_zero.mp (Option.some.inj h)
    · next hten =>
      rw [List.head?_append_of_ne_nil _ Nat.toDigits_ne_nil] at h
      have hzero := ih (n / 10) (by omega) h
      omega

def numeral (d : Fixed) : Numeral :=
  ⟨d.negative && d.units != 0, Nat.toDigits 10 d.whole, trimEnd '0' (digits places d.fraction)⟩

variable (d : Fixed)

theorem fraction_lt : d.fraction < 10 ^ places := Nat.mod_lt _ (by decide)

theorem units_eq : 10 ^ places * d.whole + d.fraction = d.units := Nat.div_add_mod d.units one

theorem isDigit_whole : ∀ c ∈ d.numeral.whole, c.isDigit = true :=
  fun _ => Nat.isDigit_of_mem_toDigits (by decide) (by decide)

theorem isDigit_fraction : ∀ c ∈ d.numeral.fraction, c.isDigit = true :=
  fun c hc => isDigit_of_mem_digits d.fraction_lt c (mem_of_mem_trimEnd hc)

theorem units_eq_zero_iff : d.units = 0 ↔ d.numeral.whole = ['0'] ∧ d.numeral.fraction = [] := by
  have hunits := d.units_eq
  rw [numeral, toDigits_eq_zero_iff, trimEnd_digits_eq_nil_iff d.fraction_lt]
  rw [show 10 ^ places = 100000000 from rfl] at hunits
  omega

theorem canonical_numeral : d.numeral.Canonical where
  isDigit := List.forall_mem_append.mpr ⟨d.isDigit_whole, d.isDigit_fraction⟩
  whole_ne_nil := Nat.toDigits_ne_nil
  leading := fun h => toDigits_eq_zero_iff.mpr (head?_toDigits h)
  places := (length_trimEnd_le '0' _).trans_eq (length_digits places d.fraction)
  trailing := getLast?_trimEnd '0' _
  sign := by
    intro hsign hzero
    simp [numeral, d.units_eq_zero_iff.mpr hzero] at hsign

theorem value_numeral : d.numeral.value = (if d.negative then -1 else 1) * (d.units / 10 ^ 8) := by
  have hfraction : (Nat.ofDigitChars 10 d.numeral.fraction 0 / 10 ^ d.numeral.fraction.length : ℚ) =
      d.fraction / 10 ^ 8 := by
    rw [numeral, ofDigitChars_trimEnd, ofDigitChars_digits d.fraction_lt, length_digits]
    rfl
  have hunits : (d.units : ℚ) = 10 ^ 8 * d.whole + d.fraction := by exact_mod_cast d.units_eq.symm
  have hmagnitude : (Nat.ofDigitChars 10 (d.numeral.whole ++ d.numeral.fraction) 0 : ℚ) /
      10 ^ d.numeral.fraction.length = d.units / 10 ^ 8 := by
    have hwhole : Nat.ofDigitChars 10 d.numeral.whole 0 = d.whole := Nat.ofDigitChars_ten_toDigits
    rw [Nat.ofDigitChars_append, Nat.ofDigitChars_eq_ofDigitChars_zero, hwhole]
    calc ((10 ^ d.numeral.fraction.length * d.whole + Nat.ofDigitChars 10 d.numeral.fraction 0 : Nat) : ℚ) /
            10 ^ d.numeral.fraction.length
        = d.whole + Nat.ofDigitChars 10 d.numeral.fraction 0 / 10 ^ d.numeral.fraction.length := by
          push_cast
          field_simp
      _ = d.whole + d.fraction / 10 ^ 8 := by rw [hfraction]
      _ = d.units / 10 ^ 8 := by
          rw [hunits]
          field_simp
  rw [Numeral.value, hmagnitude]
  by_cases hzero : d.units = 0
  · simp [hzero]
  · simp [numeral, hzero]

/-- What is left when zeros, point and sign have been taken off the text with all places. -/
theorem trimmed_text : trimmed d.text = d.numeral.text.toList := by
  have hdigit : '.'.isDigit = false := rfl
  have hwhole : '.' ∉ d.numeral.whole := fun h => by simpa [hdigit] using d.isDigit_whole '.' h
  have hfraction : '.' ∉ d.numeral.fraction := fun h => by simpa [hdigit] using d.isDigit_fraction '.' h
  have hsigned : '.' ∉ (if d.negative then ['-'] else []) ++ d.numeral.whole := by
    split <;> simpa using hwhole
  have hpoint : '.' ∈ d.text := by simp [text]
  have hzeros : trimEnd '0' d.text =
      (if d.negative then ['-'] else []) ++ d.numeral.whole ++ '.' :: d.numeral.fraction := by
    rw [text, trimEnd_append, trimEnd_cons_of_ne (by decide), if_neg (List.cons_ne_nil _ _)]
    rfl
  rw [trimmed, if_pos hpoint, hzeros, trimEnd_point hsigned hfraction, Numeral.toList_text]
  change _ = (if d.negative && d.units != 0 then ['-'] else []) ++ _ ++ _
  -- The sign is looked at last, when the text has already become that of the numeral.
  have hzero : d.numeral.whole ++ Numeral.pointed d.numeral.fraction = ['0'] ↔ d.units = 0 := by
    rw [d.units_eq_zero_iff]
    constructor
    · intro h
      rcases List.append_eq_singleton_iff.mp h with ⟨hnil, -⟩ | ⟨hwhole, hpointed⟩
      · exact absurd hnil d.canonical_numeral.whole_ne_nil
      · exact ⟨hwhole, Numeral.pointed_eq_nil_iff.mp hpointed⟩
    · rintro ⟨hwhole, hfraction⟩
      rw [hwhole, hfraction]
      rfl
  cases d.negative with
  | true =>
    by_cases hunits : d.units = 0
    · simp [hzero.mpr hunits, hunits]
    · simp [hzero, hunits]
  | false =>
    have hsign := d.canonical_numeral.ne_sign ['0']
    simp [hsign]

end Fixed

end StyleValue.Decimal
