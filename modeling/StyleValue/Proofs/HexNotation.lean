import Mathlib.Data.List.Basic
import StyleValue.Color

set_option autoImplicit false

namespace StyleValue

def IsHexDigit (c : Char) (n : Nat) : Prop := n < 16 ∧ c.toLower = n.digitChar

instance (c : Char) (n : Nat) : Decidable (IsHexDigit c n) := inferInstanceAs (Decidable (_ ∧ _))

/-- The characters that stand for one channel. -/
structure HexPair where
  high : Char
  low : Char
deriving DecidableEq, Repr

namespace HexPair

def Denotes (p : HexPair) (n : Nat) : Prop :=
  ∃ a b, IsHexDigit p.high a ∧ IsHexDigit p.low b ∧ n = 16 * a + b

/-- Two digits, or a plus sign and one. -/
def Reads (p : HexPair) (n : Nat) : Prop := p.Denotes n ∨ p.high = '+' ∧ IsHexDigit p.low n

end HexPair

/-- The pairs that three or six characters stand for. -/
inductive HexBody : List Char → HexPair → HexPair → HexPair → Prop
  | short (x y z : Char) : HexBody [x, y, z] ⟨x, x⟩ ⟨y, y⟩ ⟨z, z⟩
  | long (p q t : HexPair) : HexBody [p.high, p.low, q.high, q.low, t.high, t.low] p q t

/-- The same with at most one number sign in front. -/
def HexText (s : String) (p q t : HexPair) : Prop :=
  HexBody s.toList p q t ∨ ∃ body, s.toList = '#' :: body ∧ HexBody body p q t

def Spells (means : HexPair → Nat → Prop) (s : String) (c : Color) : Prop :=
  ∃ p q t, HexText s p q t ∧ ∃ r g b, means p r ∧ means q g ∧ means t b ∧ c = .ofBytes r g b

/-! Digits. All of them are ASCII characters, which can be gone through one by one. -/

theorem forall_ascii {P : Char → Prop} (h : ∀ k < 128, P (.ofNat k)) {c : Char} (hc : c.toNat < 128) : P c := by
  have hofNat := h c.toNat hc
  rwa [Char.ofNat_toNat] at hofNat

theorem not_le_of_not_ascii {c d : Char} (hc : ¬ c.toNat < 128) (hd : d.toNat < 128) : ¬ c ≤ d := by
  intro h
  have hle : c.toNat ≤ d.toNat := h
  omega

theorem hexValue?_of_ascii {c : Char} (hc : c.toNat < 128) : ∀ n < 16,
    Color.hexValue? c = some n ↔ c.toLower = n.digitChar :=
  forall_ascii (P := fun c => ∀ n < 16, Color.hexValue? c = some n ↔ c.toLower = n.digitChar)
    (by decide +kernel) hc

theorem hexValue?_of_not_ascii {c : Char} (hc : ¬ c.toNat < 128) : Color.hexValue? c = none := by
  unfold Color.hexValue?
  rw [if_neg fun h => not_le_of_not_ascii hc (by decide) h.2,
    if_neg fun h => not_le_of_not_ascii hc (by decide) h.2,
    if_neg fun h => not_le_of_not_ascii hc (by decide) h.2]

theorem ascii_of_hexValue? {c : Char} {n : Nat} (h : Color.hexValue? c = some n) : c.toNat < 128 := by
  by_contra hc
  rw [hexValue?_of_not_ascii hc] at h
  cases h

theorem lt_of_hexValue? {c : Char} {n : Nat} (h : Color.hexValue? c = some n) : n < 16 :=
  forall_ascii (P := fun c => ∀ n ∈ Color.hexValue? c, n < 16) (by decide +kernel) (ascii_of_hexValue? h) n h

theorem IsHexDigit.ascii {c : Char} {n : Nat} (h : IsHexDigit c n) : c.toNat < 128 := by
  by_contra hc
  have hlower : c.toLower = c := dif_neg fun hrange => not_le_of_not_ascii hc (d := 'Z') (by decide) hrange.2
  have hdigit : ∀ m < 16, (Nat.digitChar m).toNat < 128 := by decide
  exact hc (hlower ▸ h.2 ▸ hdigit n h.1)

theorem hexValue?_eq_some_iff {c : Char} {n : Nat} : Color.hexValue? c = some n ↔ IsHexDigit c n := by
  constructor
  · intro h
    have hn := lt_of_hexValue? h
    exact ⟨hn, (hexValue?_of_ascii (ascii_of_hexValue? h) n hn).mp h⟩
  · intro h
    exact (hexValue?_of_ascii h.ascii n h.1).mpr h.2

theorem IsHexDigit.ne {c d : Char} {n : Nat} (h : IsHexDigit c n) (hd : Color.hexValue? d = none) : c ≠ d := by
  rintro rfl
  rw [hexValue?_eq_some_iff.mpr h] at hd
  cases hd

/-! Bytes of text. -/

namespace Color

theorem addDigit?_eq_some_iff {n m : Nat} {c : Char} :
    addDigit? n c = some m ↔ ∃ a, IsHexDigit c a ∧ m = 16 * n + a ∧ m < 256 := by
  simp only [addDigit?, Option.bind_eq_bind, Option.bind_eq_some_iff, hexValue?_eq_some_iff,
    Option.ite_none_right_eq_some, Option.some.injEq]
  constructor
  · rintro ⟨a, ha, hlt, rfl⟩
    exact ⟨a, ha, rfl, hlt⟩
  · rintro ⟨a, ha, rfl, hlt⟩
    exact ⟨a, ha, hlt, rfl⟩

theorem isHexDigit_of_foldlM {cs : List Char} {n m : Nat} (h : cs.foldlM addDigit? n = some m) :
    ∀ c ∈ cs, ∃ a, IsHexDigit c a := by
  induction cs generalizing n with
  | nil => nofun
  | cons c cs ih =>
    rw [List.foldlM_cons] at h
    obtain ⟨k, hk, hcs⟩ := Option.bind_eq_some_iff.mp h
    obtain ⟨a, ha, -⟩ := addDigit?_eq_some_iff.mp hk
    exact List.forall_mem_cons.mpr ⟨⟨a, ha⟩, ih hcs⟩

theorem ascii_of_byte? {cs : List Char} {n : Nat} (h : byte? cs = some n) : ∀ c ∈ cs, c.toNat < 128 := by
  have hdigits {digits : List Char} (hfold : digits.foldlM addDigit? 0 = some n) :
      ∀ c ∈ digits, c.toNat < 128 := by
    intro c hc
    obtain ⟨a, ha⟩ := isHexDigit_of_foldlM hfold c hc
    exact ha.ascii
  unfold byte? at h
  split at h
  · cases h
  · cases h
  · cases h
  · exact List.forall_mem_cons.mpr ⟨by decide, hdigits h⟩
  · exact hdigits h

theorem byteLength_cons (c : Char) (cs : List Char) : byteLength (c :: cs) = c.utf8Size + byteLength cs := rfl

theorem byteLength_append (xs ys : List Char) : byteLength (xs ++ ys) = byteLength xs + byteLength ys := by
  induction xs with
  | nil => exact (Nat.zero_add _).symm
  | cons c xs ih => rw [List.cons_append, byteLength_cons, byteLength_cons, ih, Nat.add_assoc]

theorem length_le_byteLength (cs : List Char) : cs.length ≤ byteLength cs := by
  induction cs with
  | nil => exact Nat.le_refl 0
  | cons c cs ih =>
    have hpos := c.utf8Size_pos
    rw [byteLength_cons, List.length_cons]
    omega

theorem byteLength_of_ascii {cs : List Char} (h : ∀ c ∈ cs, c.toNat < 128) : byteLength cs = cs.length := by
  induction cs with
  | nil => rfl
  | cons c cs ih =>
    obtain ⟨hc, hcs⟩ := List.forall_mem_cons.mp h
    have hsize : c.utf8Size = 1 := by
      rw [Char.utf8Size_eq_one_iff, UInt32.le_iff_toNat_le]
      exact Nat.le_of_lt_succ hc
    rw [byteLength_cons, hsize, ih hcs, List.length_cons, Nat.add_comm]

theorem eq_nil_of_byteLength {cs : List Char} (h : byteLength cs = 0) : cs = [] :=
  List.eq_nil_of_length_eq_zero (Nat.le_zero.mp (h ▸ length_le_byteLength cs))

theorem splitBytes?_zero (cs : List Char) : splitBytes? 0 cs = some ([], cs) := by
  cases cs <;> rfl

theorem splitBytes?_cons (n : Nat) (c : Char) (cs : List Char) : splitBytes? (n + 1) (c :: cs) =
    if c.utf8Size ≤ n + 1 then
      (splitBytes? (n + 1 - c.utf8Size) cs).map fun parts => (c :: parts.1, parts.2)
    else none := rfl

theorem splitBytes?_append (xs ys : List Char) : splitBytes? (byteLength xs) (xs ++ ys) = some (xs, ys) := by
  induction xs with
  | nil => exact splitBytes?_zero ys
  | cons c xs ih =>
    have hpos := c.utf8Size_pos
    obtain ⟨n, hn⟩ : ∃ n, byteLength (c :: xs) = n + 1 := Nat.exists_eq_succ_of_ne_zero (by
      rw [byteLength_cons]
      omega)
    have hrest : n + 1 - c.utf8Size = byteLength xs := by
      rw [byteLength_cons] at hn
      omega
    rw [hn, List.cons_append, splitBytes?_cons, if_pos (by rw [byteLength_cons] at hn; omega), hrest, ih]
    rfl

theorem append_of_splitBytes? {n : Nat} {cs xs ys : List Char} (h : splitBytes? n cs = some (xs, ys)) :
    cs = xs ++ ys ∧ byteLength xs = n := by
  induction cs generalizing n xs with
  | nil =>
    cases n with
    | zero =>
      cases h
      exact ⟨rfl, rfl⟩
    | succ n => cases h
  | cons c cs ih =>
    cases n with
    | zero =>
      cases h
      exact ⟨rfl, rfl⟩
    | succ n =>
      rw [splitBytes?_cons, Option.ite_none_right_eq_some] at h
      obtain ⟨hle, h⟩ := h
      obtain ⟨⟨before, after⟩, hsplit, hparts⟩ := Option.map_eq_some_iff.mp h
      cases hparts
      obtain ⟨rfl, hlength⟩ := ih hsplit
      rw [byteLength_cons, hlength]
      exact ⟨rfl, by omega⟩

theorem splitBytes?_eq_some_iff {n : Nat} {cs xs ys : List Char} :
    splitBytes? n cs = some (xs, ys) ↔ cs = xs ++ ys ∧ byteLength xs = n := by
  refine ⟨append_of_splitBytes?, ?_⟩
  rintro ⟨rfl, rfl⟩
  exact splitBytes?_append xs ys

theorem append_inj_of_byteLength {xs ys xs' ys' : List Char} (h : xs ++ ys = xs' ++ ys')
    (hlength : byteLength xs = byteLength xs') : xs = xs' ∧ ys = ys' := by
  have hsplit := splitBytes?_append xs' ys'
  rw [← hlength, ← h, splitBytes?_append, Option.some.injEq, Prod.mk.injEq] at hsplit
  exact hsplit

theorem slice?_eq_some_iff {start stop : Nat} {cs xs : List Char} : slice? start stop cs = some xs ↔
    ∃ before after, cs = before ++ xs ++ after ∧ byteLength before = start ∧
      byteLength (before ++ xs) = stop := by
  simp only [slice?, Option.bind_eq_bind, Option.bind_eq_some_iff, splitBytes?_eq_some_iff, Prod.exists,
    Option.pure_def, Option.some.injEq]
  constructor
  · rintro ⟨_, after, ⟨rfl, hstop⟩, before, _, ⟨rfl, hstart⟩, rfl⟩
    exact ⟨before, after, rfl, hstart, hstop⟩
  · rintro ⟨before, after, rfl, hstart, hstop⟩
    exact ⟨_, after, ⟨rfl, hstop⟩, before, xs, ⟨rfl, hstart⟩, rfl⟩

theorem slice?_append {start middle stop : Nat} {cs xs ys : List Char} (hxs : slice? start middle cs = some xs)
    (hys : slice? middle stop cs = some ys) : slice? start stop cs = some (xs ++ ys) := by
  obtain ⟨before, after, rfl, hstart, hmiddle⟩ := slice?_eq_some_iff.mp hxs
  obtain ⟨before', after', hcs, hmiddle', hstop⟩ := slice?_eq_some_iff.mp hys
  rw [List.append_assoc before'] at hcs
  obtain ⟨rfl, rfl⟩ := append_inj_of_byteLength hcs (hmiddle.trans hmiddle'.symm)
  rw [slice?_eq_some_iff]
  exact ⟨before, after', by simp only [List.append_assoc], hstart, by rwa [← List.append_assoc]⟩

theorem byteLength_of_slice? {start stop : Nat} {cs xs : List Char} (h : slice? start stop cs = some xs) :
    byteLength xs = stop - start := by
  obtain ⟨before, after, -, hstart, hstop⟩ := slice?_eq_some_iff.mp h
  rw [byteLength_append] at hstop
  omega

theorem eq_of_slice?_all {cs xs : List Char} (h : slice? 0 (byteLength cs) cs = some xs) : cs = xs := by
  obtain ⟨before, after, rfl, hbefore, hlength⟩ := slice?_eq_some_iff.mp h
  obtain rfl := eq_nil_of_byteLength hbefore
  rw [byteLength_append _ after] at hlength
  have hafter : byteLength after = 0 := by omega
  obtain rfl := eq_nil_of_byteLength hafter
  exact List.append_nil xs

end Color

/-! Pairs and what three of them make. -/

theorem byte?_of_sign (low : Char) : Color.byte? ['+', low] = Color.addDigit? 0 low := by
  change Color.addDigit? 0 low >>= pure = _
  exact bind_pure _

theorem byte?_of_not_sign {high low : Char} (h : high ≠ '+') :
    Color.byte? [high, low] = Color.addDigit? 0 high >>= fun n => Color.addDigit? n low := by
  have hdigits : Color.byte? [high, low] = [high, low].foldlM Color.addDigit? 0 := by
    unfold Color.byte?
    split
    · next heq => cases heq
    · next heq => cases heq
    · next heq => cases heq
    · next heq => exact absurd (List.cons.inj heq).1 h
    · rfl
  rw [hdigits, List.foldlM_cons]
  exact bind_congr fun n => bind_pure _

theorem byte?_pair_iff {p : HexPair} {n : Nat} : Color.byte? [p.high, p.low] = some n ↔ p.Reads n := by
  by_cases hsign : p.high = '+'
  · rw [hsign, byte?_of_sign, Color.addDigit?_eq_some_iff]
    constructor
    · rintro ⟨a, ha, rfl, -⟩
      exact .inr ⟨hsign, (Nat.zero_add a).symm ▸ ha⟩
    · rintro (⟨a, b, hhigh, -⟩ | ⟨-, h⟩)
      · exact absurd hsign (hhigh.ne (by decide))
      · exact ⟨n, h, by omega, Nat.lt_trans h.1 (by decide)⟩
  · rw [byte?_of_not_sign hsign]
    simp only [Option.bind_eq_bind, Option.bind_eq_some_iff, Color.addDigit?_eq_some_iff]
    constructor
    · rintro ⟨_, ⟨a, ha, rfl, -⟩, b, hb, rfl, -⟩
      exact .inl ⟨a, b, ha, hb, by omega⟩
    · rintro (⟨a, b, ha, hb, rfl⟩ | ⟨h, -⟩)
      · have hlt := ha.1
        have hlt' := hb.1
        exact ⟨a, ⟨a, ha, by omega, by omega⟩, b, hb, rfl, by omega⟩
      · exact absurd h hsign

theorem exists_pair_of_byte? {cs : List Char} {n : Nat} (h : Color.byte? cs = some n)
    (hlength : Color.byteLength cs = 2) : ∃ p : HexPair, cs = [p.high, p.low] ∧ p.Reads n := by
  rw [Color.byteLength_of_ascii (Color.ascii_of_byte? h)] at hlength
  obtain ⟨high, low, rfl⟩ := List.length_eq_two.mp hlength
  exact ⟨⟨high, low⟩, rfl, byte?_pair_iff.mp h⟩

theorem HexPair.Reads.ascii {p : HexPair} {n : Nat} (h : p.Reads n) :
    p.high.toNat < 128 ∧ p.low.toNat < 128 := by
  rcases h with ⟨a, b, ha, hb, -⟩ | ⟨hsign, hlow⟩
  · exact ⟨ha.ascii, hb.ascii⟩
  · exact ⟨hsign ▸ by decide, hlow.ascii⟩

theorem forall₂_of_byte?_mapM {cs : List Char} {ns : List Nat}
    (h : cs.mapM (fun c => Color.byte? [c, c]) = some ns) :
    List.Forall₂ (fun c n => Color.byte? [c, c] = some n) cs ns := by
  induction cs generalizing ns with
  | nil =>
    cases h
    exact .nil
  | cons c cs ih =>
    rw [List.mapM_cons] at h
    obtain ⟨n, hn, h⟩ := Option.bind_eq_some_iff.mp h
    obtain ⟨ms, hms, h⟩ := Option.bind_eq_some_iff.mp h
    cases h
    exact .cons hn (ih hms)

theorem ascii_of_doubled {cs : List Char} {ns : List Nat}
    (h : List.Forall₂ (fun c n => Color.byte? [c, c] = some n) cs ns) : ∀ c ∈ cs, c.toNat < 128 := by
  induction h with
  | nil => nofun
  | cons hn _ ih => exact List.forall_mem_cons.mpr ⟨Color.ascii_of_byte? hn _ List.mem_cons_self, ih⟩

theorem HexBody.ascii {body : List Char} {p q t : HexPair} (h : HexBody body p q t) {r g b : Nat}
    (hr : p.Reads r) (hg : q.Reads g) (hb : t.Reads b) : ∀ c ∈ body, c.toNat < 128 := by
  cases h <;> simp [hr.ascii, hg.ascii, hb.ascii]

theorem ofHex?_of_hexBody {s : String} {p q t : HexPair} {r g b : Nat} (h : HexBody (Color.hexBody s) p q t)
    (hr : p.Reads r) (hg : q.Reads g) (hb : t.Reads b) : Color.ofHex? s = some (.ofBytes r g b) := by
  have hlength := Color.byteLength_of_ascii (h.ascii hr hg hb)
  have hpair {u : HexPair} {n : Nat} (hu : u.Reads n) : Color.byteLength [u.high, u.low] = 2 :=
    Color.byteLength_of_ascii (by simp [hu.ascii])
  unfold Color.ofHex?
  generalize Color.hexBody s = body at h hlength
  have hred := byte?_pair_iff.mpr hr
  have hgreen := byte?_pair_iff.mpr hg
  have hblue := byte?_pair_iff.mpr hb
  cases h with
  | short x y z => simp [hlength, hred, hgreen, hblue]
  | long p q t =>
    have hfirst : Color.slice? 0 2 [p.high, p.low, q.high, q.low, t.high, t.low] = some [p.high, p.low] :=
      Color.slice?_eq_some_iff.mpr ⟨[], [q.high, q.low, t.high, t.low], rfl, rfl, hpair hr⟩
    have hsecond : Color.slice? 2 4 [p.high, p.low, q.high, q.low, t.high, t.low] = some [q.high, q.low] :=
      Color.slice?_eq_some_iff.mpr ⟨[p.high, p.low], [t.high, t.low], rfl, hpair hr, by
        rw [Color.byteLength_append, hpair hr, hpair hg]⟩
    have hthird : Color.slice? 4 6 [p.high, p.low, q.high, q.low, t.high, t.low] = some [t.high, t.low] :=
      Color.slice?_eq_some_iff.mpr ⟨[p.high, p.low] ++ [q.high, q.low], [], rfl, by
        rw [Color.byteLength_append, hpair hr, hpair hg], hlength⟩
    simp [hlength, hfirst, hsecond, hthird, hred, hgreen, hblue]

theorem hexBody_of_ofHex? {s : String} {c : Color} (h : Color.ofHex? s = some c) :
    ∃ p q t, HexBody (Color.hexBody s) p q t ∧
      ∃ r g b, p.Reads r ∧ q.Reads g ∧ t.Reads b ∧ c = .ofBytes r g b := by
  unfold Color.ofHex? at h
  generalize Color.hexBody s = body at h ⊢
  dsimp only at h
  split at h
  · next hlength =>
    have hle : body.length ≤ 3 := hlength ▸ Color.length_le_byteLength body
    rw [List.take_of_length_le hle] at h
    simp only [Option.bind_eq_bind, Option.bind_eq_some_iff, Option.pure_def, Option.some.injEq] at h
    obtain ⟨channels, hchannels, rfl⟩ := h
    have hread := forall₂_of_byte?_mapM hchannels
    rw [Color.byteLength_of_ascii (ascii_of_doubled hread)] at hlength
    obtain ⟨x, y, z, rfl⟩ := List.length_eq_three.mp hlength
    cases hread with
    | @cons _ r _ _ hx hread => cases hread with
      | @cons _ g _ _ hy hread => cases hread with
        | @cons _ b _ _ hz hread =>
          cases hread
          exact ⟨_, _, _, .short x y z, r, g, b, byte?_pair_iff.mp hx, byte?_pair_iff.mp hy,
            byte?_pair_iff.mp hz, rfl⟩
  · next hlength =>
    simp only [Option.bind_eq_bind, Option.bind_eq_some_iff, Option.pure_def, Option.some.injEq] at h
    obtain ⟨xs, hxs, r, hr, ys, hys, g, hg, zs, hzs, b, hb, rfl⟩ := h
    have hall := Color.slice?_append (Color.slice?_append hxs hys) hzs
    rw [← hlength] at hall
    obtain rfl := Color.eq_of_slice?_all hall
    obtain ⟨p, rfl, hp⟩ := exists_pair_of_byte? hr (Color.byteLength_of_slice? hxs)
    obtain ⟨q, rfl, hq⟩ := exists_pair_of_byte? hg (Color.byteLength_of_slice? hys)
    obtain ⟨t, rfl, ht⟩ := exists_pair_of_byte? hb (Color.byteLength_of_slice? hzs)
    exact ⟨p, q, t, .long p q t, r, g, b, hp, hq, ht, rfl⟩
  · cases h

theorem ofHex?_eq_some_iff_body {s : String} {c : Color} : Color.ofHex? s = some c ↔
    ∃ p q t, HexBody (Color.hexBody s) p q t ∧
      ∃ r g b, p.Reads r ∧ q.Reads g ∧ t.Reads b ∧ c = .ofBytes r g b := by
  refine ⟨hexBody_of_ofHex?, ?_⟩
  rintro ⟨p, q, t, hbody, r, g, b, hr, hg, hb, rfl⟩
  exact ofHex?_of_hexBody hbody hr hg hb

namespace HexPair

variable {p : HexPair} {n : Nat}

theorem Denotes.ne (h : p.Denotes n) {d : Char} (hd : Color.hexValue? d = none) : d ≠ p.high ∧ d ≠ p.low := by
  obtain ⟨a, b, ha, hb, -⟩ := h
  exact ⟨(ha.ne hd).symm, (hb.ne hd).symm⟩

theorem Reads.high_ne (h : p.Reads n) : p.high ≠ '#' := by
  rcases h with h | ⟨hsign, -⟩
  · exact (h.ne (by decide)).1.symm
  · rw [hsign]
    decide

theorem Reads.denotes (h : p.Reads n) (hsign : p.high ≠ '+') : p.Denotes n :=
  h.resolve_right fun hsigned => hsign hsigned.1

end HexPair

theorem HexBody.mem_iff {body : List Char} {p q t : HexPair} (h : HexBody body p q t) {x : Char} :
    x ∈ body ↔ ∃ u ∈ [p, q, t], x = u.high ∨ x = u.low := by
  cases h <;> simp [or_assoc]

theorem HexBody.head?_eq {body : List Char} {p q t : HexPair} (h : HexBody body p q t) :
    body.head? = some p.high := by
  cases h <;> rfl

namespace HexText

variable {s : String} {p q t : HexPair}

theorem of_hexBody (h : HexBody (Color.hexBody s) p q t) : HexText s p q t := by
  unfold Color.hexBody at h
  split at h
  · next cs hs => exact .inr ⟨cs, hs, h⟩
  · exact .inl h

/-- Where the first pair does not begin with a number sign, none is mistaken for it. -/
theorem body (h : HexText s p q t) (hp : p.high ≠ '#') : HexBody (Color.hexBody s) p q t := by
  unfold Color.hexBody
  rcases h with h | ⟨body, hs, h⟩
  · split
    · next cs hs =>
      rw [hs] at h
      exact absurd (Option.some.inj h.head?_eq).symm hp
    · exact h
  · rw [hs]
    exact h

theorem mem_iff (h : HexText s p q t) {x : Char} (hx : x ≠ '#') :
    x ∈ s.toList ↔ ∃ u ∈ [p, q, t], x = u.high ∨ x = u.low := by
  rcases h with h | ⟨body, hs, h⟩
  · exact h.mem_iff
  · rw [hs, List.mem_cons, or_iff_right hx]
    exact h.mem_iff

end HexText

theorem ofHex?_eq_some_iff {s : String} {c : Color} : Color.ofHex? s = some c ↔ Spells HexPair.Reads s c := by
  rw [ofHex?_eq_some_iff_body]
  constructor
  · rintro ⟨p, q, t, hbody, hcolor⟩
    exact ⟨p, q, t, .of_hexBody hbody, hcolor⟩
  · rintro ⟨p, q, t, htext, r, g, b, hr, hcolor⟩
    exact ⟨p, q, t, htext.body hr.high_ne, r, g, b, hr, hcolor⟩

theorem spells_denotes_iff {s : String} {c : Color} :
    Spells HexPair.Denotes s c ↔ Spells HexPair.Reads s c ∧ '+' ∉ s.toList := by
  constructor
  · rintro ⟨p, q, t, htext, r, g, b, hr, hg, hb, rfl⟩
    refine ⟨⟨p, q, t, htext, r, g, b, .inl hr, .inl hg, .inl hb, rfl⟩, fun hplus => ?_⟩
    have hsign : ∀ u ∈ [p, q, t], '+' ≠ u.high ∧ '+' ≠ u.low := by
      simp only [List.forall_mem_cons]
      exact ⟨hr.ne (by decide), hg.ne (by decide), hb.ne (by decide), nofun⟩
    obtain ⟨u, hu, hx⟩ := (htext.mem_iff (by decide)).mp hplus
    exact hx.elim (hsign u hu).1 (hsign u hu).2
  · rintro ⟨⟨p, q, t, htext, r, g, b, hr, hg, hb, rfl⟩, hplus⟩
    have hsign : ∀ u ∈ [p, q, t], u.high ≠ '+' :=
      fun u hu h => hplus ((htext.mem_iff (by decide)).mpr ⟨u, hu, .inl h.symm⟩)
    simp only [List.forall_mem_cons] at hsign
    obtain ⟨hp, hq, ht, -⟩ := hsign
    exact ⟨p, q, t, htext, r, g, b, hr.denotes hp, hg.denotes hq, hb.denotes ht, rfl⟩

theorem hex_notation_is_read_unless_signed (s : String) :
    (∀ c, Color.ofHex? s = some c ↔ Spells HexPair.Reads s c) ∧
      ((∀ c, Color.ofHex? s = some c ↔ Spells HexPair.Denotes s c) ↔
        ¬ ('+' ∈ s.toList ∧ ∃ c, Spells HexPair.Reads s c)) := by
  refine ⟨fun c => ofHex?_eq_some_iff, ?_⟩
  simp only [ofHex?_eq_some_iff, spells_denotes_iff]
  constructor
  · rintro h ⟨hplus, c, hc⟩
    exact ((h c).mp hc).2 hplus
  · intro hno c
    exact ⟨fun hc => ⟨hc, fun hplus => hno ⟨hplus, c, hc⟩⟩, And.left⟩

theorem hex_notation_fails_for_signed_pairs :
    Color.ofHex? "#+f+f+f" = some (.ofBytes 15 15 15) ∧ ∀ c, ¬ Spells HexPair.Denotes "#+f+f+f" c :=
  ⟨rfl, fun c hc => (spells_denotes_iff.mp hc).2 (by decide)⟩

end StyleValue
