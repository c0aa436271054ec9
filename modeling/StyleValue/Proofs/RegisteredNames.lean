import Mathlib.Data.List.Forall2
import StyleValue.Proofs.StandardLibrary

set_option autoImplicit false

namespace StyleValue

def IsCapital (c : Char) : Prop := 'A' ≤ c ∧ c ≤ 'Z'

/-- The same character, or a capital and its small letter, which stands 32 places behind it. -/
def SameLetter (c d : Char) : Prop :=
  c = d ∨ IsCapital c ∧ d.toNat = c.toNat + 32 ∨ IsCapital d ∧ c.toNat = d.toNat + 32

instance (c : Char) : Decidable (IsCapital c) := inferInstanceAs (Decidable (_ ∧ _))

instance (c d : Char) : Decidable (SameLetter c d) := inferInstanceAs (Decidable (_ ∨ _))

def SameName (name other : String) : Prop := List.Forall₂ SameLetter name.toList other.toList

def IsLowerForm (lower name : String) : Prop := SameName name lower ∧ ∀ c ∈ lower.toList, ¬IsCapital c

theorem isCapital_iff {c : Char} : IsCapital c ↔ 65 ≤ c.toNat ∧ c.toNat ≤ 90 := Iff.rfl

theorem toNat_toLower (c : Char) : c.toLower.toNat = if IsCapital c then c.toNat + 32 else c.toNat := by
  unfold Char.toLower
  split
  · next h =>
    have hcapital : IsCapital c := ⟨h.1, h.2⟩
    have hle := (isCapital_iff.mp hcapital).2
    rw [if_pos hcapital]
    change (c.val + 32).toNat = c.toNat + 32
    rw [UInt32.toNat_add, Char.toNat_val]
    exact Nat.mod_eq_of_lt (by change c.toNat + 32 < 2 ^ 32; omega)
  · next h => rw [if_neg fun hcapital => h ⟨hcapital.1, hcapital.2⟩]

theorem toLower_eq_iff {c d : Char} : c.toLower = d.toLower ↔ SameLetter c d := by
  rw [SameLetter, ← Char.toNat_inj, ← Char.toNat_inj, toNat_toLower, toNat_toLower]
  simp only [isCapital_iff]
  split <;> split <;> omega

theorem not_isCapital_toLower (c : Char) : ¬IsCapital c.toLower := by
  rw [isCapital_iff, toNat_toLower]
  simp only [isCapital_iff]
  split <;> omega

theorem toLower_of_not_isCapital {c : Char} (h : ¬IsCapital c) : c.toLower = c := by
  rw [← Char.toNat_inj, toNat_toLower, if_neg h]

namespace Library

theorem fold_eq_fold_iff {name other : String} : fold name = fold other ↔ SameName name other := by
  rw [fold_eq_iff, ← List.forall₂_eq_eq_eq, List.forall₂_map_left_iff, List.forall₂_map_right_iff]
  simp only [toLower_eq_iff]
  rfl

theorem fold_of_no_capital {name : String} (h : ∀ c ∈ name.toList, ¬IsCapital c) : fold name = name := by
  rw [fold, ← String.toList_inj, String.toList_map]
  exact (List.map_congr_left fun c hc => toLower_of_not_isCapital (h c hc)).trans (List.map_id _)

theorem no_capital_fold (name : String) : ∀ c ∈ (fold name).toList, ¬IsCapital c := by
  rw [fold, String.toList_map]
  intro c hc
  obtain ⟨d, -, rfl⟩ := List.mem_map.mp hc
  exact not_isCapital_toLower d

theorem eq_fold_iff {lower name : String} : lower = fold name ↔ IsLowerForm lower name := by
  constructor
  · rintro rfl
    exact ⟨fold_eq_fold_iff.mp (fold_of_no_capital (no_capital_fold name)).symm, no_capital_fold name⟩
  · rintro ⟨hsame, hlower⟩
    rw [fold_eq_fold_iff.mpr hsame, fold_of_no_capital hlower]

end Library

abbrev Registration := String × Function

def Builtin.registration (b : Builtin) : Registration := (b.name, .ofPure b.apply)

/-- The function is the one that was registered last under a spelling of the name. -/
def IsNewest (history : List Registration) (name : String) (f : Function) : Prop :=
  ∃ before other after, history = before ++ (other, f) :: after ∧ SameName other name ∧
    ∀ r ∈ after, ¬SameName r.1 name

section

variable {history : List Registration} {name other : String} {f g : Function}

theorem last_of_split {α : Type} {before after xs : List α} {x last : α}
    (h : xs ++ [last] = before ++ x :: after) :
    last = x ∨ ∃ rest, after = rest ++ [last] ∧ xs = before ++ x :: rest := by
  rcases List.eq_nil_or_concat' after with rfl | ⟨rest, y, rfl⟩
  · exact .inl (List.cons.inj (List.append_inj' h rfl).2).1
  · have hsplit : xs ++ [last] = before ++ x :: rest ++ [y] := by simpa using h
    obtain ⟨hrest, hlast⟩ := List.append_inj' hsplit rfl
    cases hlast
    exact .inr ⟨rest, rfl, hrest⟩

theorem isNewest_concat_of_same (h : SameName other name) :
    IsNewest (history ++ [(other, g)]) name f ↔ g = f := by
  constructor
  · rintro ⟨before, third, after, hsplit, -, hafter⟩
    rcases last_of_split hsplit with hlast | ⟨rest, rfl, -⟩
    · exact congrArg Prod.snd hlast
    · exact absurd h (hafter (other, g) (by simp))
  · rintro rfl
    exact ⟨history, other, [], rfl, h, nofun⟩

theorem isNewest_concat_of_not_same (h : ¬SameName other name) :
    IsNewest (history ++ [(other, g)]) name f ↔ IsNewest history name f := by
  constructor
  · rintro ⟨before, third, after, hsplit, hsame, hafter⟩
    rcases last_of_split hsplit with hlast | ⟨rest, rfl, hrest⟩
    · cases hlast
      exact absurd hsame h
    · exact ⟨before, third, rest, hrest, hsame, fun r hr => hafter r (List.mem_append_left _ hr)⟩
  · rintro ⟨before, third, after, rfl, hsame, hafter⟩
    refine ⟨before, third, after ++ [(other, g)], by simp, hsame, ?_⟩
    exact List.forall_mem_append.mpr ⟨hafter, List.forall_mem_singleton.mpr h⟩

end

namespace Table

variable {α : Type}

theorem mem_names_insert {t : Table α} {name other : String} {value : α} :
    other ∈ (t.insert name value).names ↔ other = name ∨ other ∈ t.names := by
  by_cases h : other = name
  · simp [names, insert, h]
  · simp [names, insert, others, h]

end Table

namespace Library

def registerEach (lib : Library) (registrations : List Registration) : Library :=
  registrations.foldl (fun lib r => lib.register r.1 r.2) lib

theorem builtin_eq_registerEach : builtin = empty.registerEach (Builtin.all.map Builtin.registration) := by
  rw [registerEach, List.foldl_map]
  rfl

/-- The library answers every question as the history of its registrations says. -/
structure Reflects (lib : Library) (history : List Registration) : Prop where
  newest : ∀ name f, lib.find? name = some f ↔ IsNewest history name f
  contains : ∀ name, lib.contains name = true ↔ ∃ f, lib.find? name = some f
  distinct : lib.names.Nodup
  names : ∀ lower, lower ∈ lib.names ↔ ∃ r ∈ history, IsLowerForm lower r.1
  size : lib.size = lib.names.length
  isEmpty : lib.isEmpty = true ↔ lib.size = 0

section

variable {lib : Library} {history : List Registration}

theorem Reflects.of_names (hnewest : ∀ name f, lib.find? name = some f ↔ IsNewest history name f)
    (hnames : ∀ lower, lower ∈ lib.table.names ↔ ∃ r ∈ history, IsLowerForm lower r.1) :
    lib.Reflects history where
  newest := hnewest
  contains _ := Option.isSome_iff_exists
  distinct := (List.mergeSort_perm _ _).nodup_iff.mpr lib.table.distinct
  names _ := List.mem_mergeSort.trans (hnames _)
  size := by rw [Library.names, List.length_mergeSort, Table.names, List.length_map]; rfl
  isEmpty := beq_iff_eq

theorem reflects_empty : empty.Reflects [] := by
  refine .of_names (fun name f => ?_) (fun lower => ?_)
  · exact iff_of_false nofun fun ⟨_, _, _, h, _⟩ => by simp at h
  · exact iff_of_false nofun fun ⟨_, h, _⟩ => by cases h

theorem Reflects.register (h : lib.Reflects history) (name : String) (f : Function) :
    (lib.register name f).Reflects (history ++ [(name, f)]) := by
  refine .of_names (fun other g => ?_) (fun lower => ?_)
  · rw [find?_register]
    by_cases hname : fold other = fold name
    · rw [if_pos hname, isNewest_concat_of_same (fold_eq_fold_iff.mp hname.symm), Option.some.injEq]
    · have hother : ¬SameName name other := fun hsame => hname (fold_eq_fold_iff.mpr hsame).symm
      rw [if_neg hname, isNewest_concat_of_not_same hother, h.newest]
  · have hold : lower ∈ lib.table.names ↔ ∃ r ∈ history, IsLowerForm lower r.1 :=
      List.mem_mergeSort.symm.trans (h.names lower)
    change lower ∈ (lib.table.insert (fold name) f).names ↔ _
    rw [Table.mem_names_insert, hold, eq_fold_iff]
    simp only [List.mem_append, List.mem_singleton, or_and_right, exists_or, exists_eq_left]
    exact or_comm

theorem Reflects.registerEach (h : lib.Reflects history) (registrations : List Registration) :
    (lib.registerEach registrations).Reflects (history ++ registrations) := by
  induction registrations generalizing lib history with
  | nil => rwa [List.append_nil]
  | cons r registrations ih =>
    rw [List.append_cons]
    exact ih (h.register r.1 r.2)

end

end Library

theorem libraries_reflect_registrations (registrations : List Registration) :
    (Library.empty.registerEach registrations).Reflects registrations ∧
      (Library.builtin.registerEach registrations).Reflects
        (Builtin.all.map Builtin.registration ++ registrations) := by
  have hbuiltin := Library.reflects_empty.registerEach (Builtin.all.map Builtin.registration)
  rw [← Library.builtin_eq_registerEach, List.nil_append] at hbuiltin
  exact ⟨Library.reflects_empty.registerEach registrations, hbuiltin.registerEach registrations⟩

/-- The sign of the unit kelvin is a letter of its own. -/
example : SameLetter 'K' 'k' ∧ ¬SameLetter '\u212a' 'k' := by decide

end StyleValue
