set_option autoImplicit false

namespace StyleValue

/-- Entries by name, the one bound last first. -/
structure Table (α : Type) where
  entries : List (String × α)
  distinct : (entries.map Prod.fst).Nodup

namespace Table

variable {α : Type}

def empty : Table α := ⟨[], List.nodup_nil⟩

def find? (t : Table α) (name : String) : Option α := t.entries.lookup name

def contains (t : Table α) (name : String) : Bool := (t.find? name).isSome

def names (t : Table α) : List String := t.entries.map Prod.fst

def size (t : Table α) : Nat := t.entries.length

def others (name : String) (entries : List (String × α)) : List (String × α) :=
  entries.filter fun entry => entry.1 != name

theorem not_mem_others (name : String) (entries : List (String × α)) :
    name ∉ (others name entries).map Prod.fst := by
  simp [others]

theorem nodup_others {name : String} {entries : List (String × α)}
    (h : (entries.map Prod.fst).Nodup) : ((others name entries).map Prod.fst).Nodup :=
  h.sublist (List.filter_sublist.map Prod.fst)

theorem lookup_others {name other : String} (h : other ≠ name) (entries : List (String × α)) :
    (others name entries).lookup other = entries.lookup other := by
  induction entries with
  | nil => rfl
  | cons entry rest ih =>
    obtain ⟨key, value⟩ := entry
    by_cases hk : key = name
    · have hb : (other == key) = false := by simpa [hk] using h
      simp only [List.lookup_cons, hb]
      simpa [others, hk] using ih
    · have hn : (key != name) = true := by simpa using hk
      simp only [others, List.filter_cons, hn, if_true, List.lookup_cons]
      cases other == key
      · exact ih
      · rfl

def insert (t : Table α) (name : String) (value : α) : Table α where
  entries := (name, value) :: others name t.entries
  distinct := List.nodup_cons.mpr ⟨not_mem_others name t.entries, nodup_others t.distinct⟩

/-- Inserts the entries in order, so that of two of one name the later counts. -/
def ofList (entries : List (String × α)) : Table α :=
  entries.foldl (fun t entry => t.insert entry.1 entry.2) empty

@[simp] theorem find?_empty (name : String) : (empty : Table α).find? name = none := rfl

theorem find?_insert (t : Table α) (name other : String) (value : α) :
    (t.insert name value).find? other = if other = name then some value else t.find? other := by
  by_cases h : other = name
  · simp [insert, find?, h]
  · have hb : (other == name) = false := by simpa using h
    simp [insert, find?, List.lookup_cons, hb, h, lookup_others h]

end Table

end StyleValue
