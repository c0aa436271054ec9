import StyleValue.Css
import StyleValue.Proofs.HexNotation

set_option autoImplicit false

namespace StyleValue

namespace HexPair

def lower (p : HexPair) : List Char := [p.high.toLower, p.low.toLower]

def IsDoubled (p : HexPair) : Prop := p.high.toLower = p.low.toLower

instance (p : HexPair) : Decidable p.IsDoubled := inferInstanceAs (Decidable (_ = _))

variable {p : HexPair} {n : Nat}

theorem Denotes.lt (h : p.Denotes n) : n < 256 := by
  obtain ⟨a, b, ⟨ha, -⟩, ⟨hb, -⟩, rfl⟩ := h
  omega

theorem Denotes.digits (h : p.Denotes n) :
    p.high.toLower = (n / 16).digitChar ∧ p.low.toLower = (n % 16).digitChar := by
  obtain ⟨a, b, ⟨ha, hhigh⟩, ⟨hb, hlow⟩, rfl⟩ := h
  rw [show (16 * a + b) / 16 = a by omega, show (16 * a + b) % 16 = b by omega]
  exact ⟨hhigh, hlow⟩

theorem Denotes.hexByte_eq (h : p.Denotes n) : Color.hexByte n = p.lower := by
  rw [Color.hexByte, lower, h.digits.1, h.digits.2]

theorem Denotes.isDoubled_iff (h : p.Denotes n) : Color.isDoubled n = true ↔ p.IsDoubled := by
  have hinj : ∀ a < 16, ∀ b < 16, Nat.digitChar a = Nat.digitChar b → a = b := by decide
  have hlt := h.lt
  rw [Color.isDoubled, IsDoubled, h.digits.1, h.digits.2, beq_iff_eq]
  exact ⟨congrArg Nat.digitChar, hinj (n / 16) (by omega) (n % 16) (by omega)⟩

def ofByte (n : Nat) : HexPair := ⟨(n / 16).digitChar, (n % 16).digitChar⟩

theorem isHexDigit_digitChar {n : Nat} (h : n < 16) : IsHexDigit n.digitChar n := by
  have hlower : ∀ m < 16, (Nat.digitChar m).toLower = m.digitChar := by decide
  exact ⟨h, hlower n h⟩

theorem ofByte_denotes (h : n < 256) : (ofByte n).Denotes n :=
  ⟨n / 16, n % 16, isHexDigit_digitChar (by omega), isHexDigit_digitChar (by omega), by omega⟩

theorem ofByte_of_isDoubled (h : Color.isDoubled n = true) :
    ofByte n = ⟨(n % 16).digitChar, (n % 16).digitChar⟩ := by
  rw [ofByte, beq_iff_eq.mp h]

end HexPair

namespace Color

theorem channelByte_lt (x : Float) : channelByte x < 256 := by
  unfold channelByte
  split <;> split <;> omega

theorem channelByte_ofNat : ∀ n < 256, channelByte (.ofNat n) = n := by decide +kernel

theorem bytes_ofBytes {r g b : Nat} (hr : r < 256) (hg : g < 256) (hb : b < 256) :
    (ofBytes r g b).bytes = [r, g, b] := by
  rw [bytes, ofBytes, channelByte_ofNat r hr, channelByte_ofNat g hg, channelByte_ofNat b hb]

theorem css_of_opaque {c : Color} (h : ¬ c.opacity < 1) (opts : Options) : c.css opts = c.hex opts.compress :=
  if_neg h

theorem opaque_ofBytes (r g b : Nat) : ¬ (ofBytes r g b).opacity < 1 := by
  change ¬ Decimal.clamp 0 1 1 < 1
  decide +kernel

theorem hexText_hex (c : Color) (short : Bool) : HexText (c.hex short) (.ofByte (channelByte c.red))
    (.ofByte (channelByte c.green)) (.ofByte (channelByte c.blue)) := by
  refine .inr ⟨_, String.toList_ofList, ?_⟩
  split
  · next hshort =>
    obtain ⟨hr, hg, hb⟩ : isDoubled (channelByte c.red) = true ∧ isDoubled (channelByte c.green) = true ∧
        isDoubled (channelByte c.blue) = true := by
      simpa [bytes] using (Bool.and_eq_true_iff.mp hshort).2
    rw [HexPair.ofByte_of_isDoubled hr, HexPair.ofByte_of_isDoubled hg, HexPair.ofByte_of_isDoubled hb]
    exact .short _ _ _
  · exact .long (.ofByte _) (.ofByte _) (.ofByte _)

theorem ofHex?_hex (c : Color) (short : Bool) : ofHex? (c.hex short) =
    some (.ofBytes (channelByte c.red) (channelByte c.green) (channelByte c.blue)) :=
  ofHex?_eq_some_iff.mpr ⟨_, _, _, hexText_hex c short, _, _, _, .inl (HexPair.ofByte_denotes (channelByte_lt _)),
    .inl (HexPair.ofByte_denotes (channelByte_lt _)), .inl (HexPair.ofByte_denotes (channelByte_lt _)), rfl⟩

theorem hex_ofBytes {p q t : HexPair} {r g b : Nat} (hr : p.Denotes r) (hg : q.Denotes g) (hb : t.Denotes b)
    (short : Bool) : (ofBytes r g b).hex short = String.ofList ('#' ::
      if short = true ∧ p.IsDoubled ∧ q.IsDoubled ∧ t.IsDoubled then
        [p.low.toLower, q.low.toLower, t.low.toLower]
      else p.lower ++ q.lower ++ t.lower) := by
  rw [hex, bytes_ofBytes hr.lt hg.lt hb.lt]
  congr 2
  have hcond : (short && [r, g, b].all isDoubled) = true ↔
      short = true ∧ p.IsDoubled ∧ q.IsDoubled ∧ t.IsDoubled := by
    rw [← hr.isDoubled_iff, ← hg.isDoubled_iff, ← hb.isDoubled_iff]
    simp
  refine if_congr hcond ?_ ?_
  · rw [hr.digits.2, hg.digits.2, hb.digits.2]
    rfl
  · rw [← hr.hexByte_eq, ← hg.hexByte_eq, ← hb.hexByte_eq]
    rfl

end Color

theorem opaque_colors_round_trip :
    (∀ (c : Color) (opts : Options), ¬ c.opacity < 1 → Color.ofHex? (c.css opts) =
      some (.ofBytes (Color.channelByte c.red) (Color.channelByte c.green) (Color.channelByte c.blue))) ∧
    ∀ (s : String) (p q t : HexPair), HexText s p q t → (∀ u ∈ [p, q, t], ∃ n, u.Denotes n) →
      ∃ c, Color.ofHex? s = some c ∧ ∀ opts : Options, c.css opts = String.ofList ('#' ::
        if opts.compress = true ∧ p.IsDoubled ∧ q.IsDoubled ∧ t.IsDoubled then
          [p.low.toLower, q.low.toLower, t.low.toLower]
        else p.lower ++ q.lower ++ t.lower) := by
  constructor
  · intro c opts hopaque
    rw [Color.css_of_opaque hopaque]
    exact Color.ofHex?_hex c opts.compress
  · intro s p q t htext hdigits
    obtain ⟨⟨r, hr⟩, ⟨g, hg⟩, b, hb⟩ : (∃ n, p.Denotes n) ∧ (∃ n, q.Denotes n) ∧ ∃ n, t.Denotes n := by
      simpa using hdigits
    have hread : Color.ofHex? s = some (.ofBytes r g b) :=
      ofHex?_eq_some_iff.mpr ⟨p, q, t, htext, r, g, b, .inl hr, .inl hg, .inl hb, rfl⟩
    refine ⟨_, hread, fun opts => ?_⟩
    rw [Color.css_of_opaque (Color.opaque_ofBytes r g b)]
    exact Color.hex_ofBytes hr hg hb opts.compress

/-- Channels beyond both ends of the range and an alpha that is not a number; digits of both cases. -/
theorem opaque_colors_round_trip_of_clamped :
    let c : Color := ⟨300, -5, .ofScientific 1276 true 1, 0 / 0⟩
    Color.ofHex? (c.css { compress := true }) = some (.ofBytes 255 0 128) ∧
      ∃ d, Color.ofHex? "AabBcc" = some d ∧ d.css {} = "#aabbcc" ∧ d.css { compress := true } = "#abc" := by
  intro c
  have hopaque : ¬ c.opacity < 1 := by decide +kernel
  have hbytes : Color.channelByte c.red = 255 ∧ Color.channelByte c.green = 0 ∧ Color.channelByte c.blue = 128 := by
    decide +kernel
  have hprinted := opaque_colors_round_trip.1 c { compress := true } hopaque
  rw [hbytes.1, hbytes.2.1, hbytes.2.2] at hprinted
  have hdigits : ∀ u ∈ [HexPair.mk 'A' 'a', ⟨'b', 'B'⟩, ⟨'c', 'c'⟩], ∃ n, u.Denotes n := by
    simp only [List.forall_mem_cons]
    exact ⟨⟨170, 10, 10, by decide, by decide, rfl⟩,
      ⟨187, 11, 11, by decide, by decide, rfl⟩,
      ⟨204, 12, 12, by decide, by decide, rfl⟩, nofun⟩
  obtain ⟨d, hread, hcss⟩ := opaque_colors_round_trip.2 "AabBcc" ⟨'A', 'a'⟩ ⟨'b', 'B'⟩ ⟨'c', 'c'⟩
    (.inl (.long ⟨'A', 'a'⟩ ⟨'b', 'B'⟩ ⟨'c', 'c'⟩)) hdigits
  exact ⟨hprinted, d, hread, hcss {}, hcss { compress := true }⟩

end StyleValue
