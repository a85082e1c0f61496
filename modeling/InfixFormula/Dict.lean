import InfixFormula.Text.Basic

/-!
# Dictionaries

A dictionary holds one value for each of its names, in the order in which the names first came.  Only
the look-up matters to those who use one: two dictionaries agree if they hold the same values for the
same names, in whatever order.

Main facts: a name that has been put holds the value that was put, and every other name holds what it
held before (`find?_insert`); the same for erasing (`find?_erase`).  A dictionary is that of its own entries
(`ofList_entries`).
-/

namespace InfixFormula

/-- Values for names, one for each name. -/
structure Dict (α : Type) where
  /-- The names with their values. -/
  entries : List (Text × α)
  /-- No name comes twice. -/
  nodup : (entries.map Prod.fst).Nodup

namespace Dict

variable {α : Type}

/-- The dictionary without names. -/
def empty : Dict α := ⟨[], List.nodup_nil⟩

/-- The names. -/
def keys (d : Dict α) : List Text := d.entries.map Prod.fst

/-- The number of names. -/
def size (d : Dict α) : Nat := d.entries.length

/-- The value of the name, if the dictionary has the name. -/
def find? (d : Dict α) (name : Text) : Option α := d.entries.lookup name

/-- Puts a value into a list of entries: over the old one, or behind all others. -/
def putEntry (name : Text) (value : α) : List (Text × α) → List (Text × α)
  | [] => [(name, value)]
  | e :: rest => if e.1 = name then (name, value) :: rest else e :: putEntry name value rest

/-- Putting an entry adds its name and no other. -/
theorem mem_keys_putEntry {name other : Text} {value : α} {es : List (Text × α)} :
    other ∈ (putEntry name value es).map Prod.fst ↔ other = name ∨ other ∈ es.map Prod.fst := by
  induction es with
  | nil => simp [putEntry]
  | cons e rest ih =>
      rw [putEntry]
      split
      · next h => simp [h]
      · rw [List.map_cons, List.mem_cons, ih, List.map_cons, List.mem_cons]
        grind

/-- A name that is there gets a new value where it stands, so no name is doubled. -/
theorem nodup_putEntry (name : Text) (value : α) {es : List (Text × α)}
    (h : (es.map Prod.fst).Nodup) : ((putEntry name value es).map Prod.fst).Nodup := by
  induction es with
  | nil => simp [putEntry]
  | cons e rest ih =>
      rw [List.map_cons, List.nodup_cons] at h
      rw [putEntry]
      split
      · next he =>
          rw [List.map_cons, List.nodup_cons]
          exact ⟨he ▸ h.1, h.2⟩
      · next he =>
          rw [List.map_cons, List.nodup_cons, mem_keys_putEntry]
          exact ⟨fun hm => hm.elim he h.1, ih h.2⟩

/-- Puts the value under the name. -/
def insert (d : Dict α) (name : Text) (value : α) : Dict α :=
  ⟨putEntry name value d.entries, nodup_putEntry name value d.nodup⟩

/-- Removes the name. -/
def erase (d : Dict α) (name : Text) : Dict α where
  entries := d.entries.filter (fun e => e.1 != name)
  nodup := d.nodup.sublist (List.filter_sublist.map Prod.fst)

/-- Puts all the values, one after the other. -/
def insertAll (d : Dict α) (es : List (Text × α)) : Dict α :=
  es.foldl (fun d e => d.insert e.1 e.2) d

/-- The dictionary of the entries; of two values for one name the later counts. -/
def ofList (es : List (Text × α)) : Dict α := empty.insertAll es

/-- Whether the two dictionaries hold the same values for the same names. -/
def agrees [BEq α] (d e : Dict α) : Bool :=
  d.size == e.size && d.entries.all (fun x => e.find? x.1 == some x.2)

@[simp] theorem find?_empty (name : Text) : (empty : Dict α).find? name = none := rfl

/-- The entry that was put is found, and every other as before. -/
theorem lookup_putEntry (name other : Text) (value : α) (es : List (Text × α)) :
    (putEntry name value es).lookup other =
      if other = name then some value else es.lookup other := by
  induction es with
  | nil =>
      simp only [putEntry, List.lookup_cons, List.lookup_nil]
      grind
  | cons e rest ih =>
      obtain ⟨n, w⟩ := e
      rw [putEntry]
      split
      · simp only [List.lookup_cons]
        grind
      · simp only [List.lookup_cons, ih]
        grind

/-- What was taken out is not found any more, and everything else is found as before. -/
theorem lookup_filter_ne (name other : Text) (es : List (Text × α)) :
    (es.filter (fun e => e.1 != name)).lookup other =
      if other = name then none else es.lookup other := by
  induction es with
  | nil => simp
  | cons e rest ih =>
      obtain ⟨n, w⟩ := e
      rw [List.filter_cons]
      split
      · simp only [List.lookup_cons, ih]
        grind
      · simp only [List.lookup_cons, ih]
        grind

/-- A name that has been put holds its new value, any other name its old one. -/
theorem find?_insert (d : Dict α) (name other : Text) (value : α) :
    (d.insert name value).find? other = if other = name then some value else d.find? other :=
  lookup_putEntry name other value d.entries

/-- An erased name is gone, any other name keeps its value. -/
theorem find?_erase (d : Dict α) (name other : Text) :
    (d.erase name).find? other = if other = name then none else d.find? other :=
  lookup_filter_ne name other d.entries

/-- A new name goes to the end. -/
theorem putEntry_of_not_mem {name : Text} (value : α) {es : List (Text × α)}
    (h : name ∉ es.map Prod.fst) : putEntry name value es = es ++ [(name, value)] := by
  induction es with
  | nil => rfl
  | cons e rest ih =>
      rw [List.map_cons, List.mem_cons, not_or] at h
      rw [putEntry, if_neg (Ne.symm h.1), ih h.2, List.cons_append]

/-- New names go to the end in their order. -/
theorem entries_insertAll {d : Dict α} {es : List (Text × α)}
    (h : ((d.entries ++ es).map Prod.fst).Nodup) : (d.insertAll es).entries = d.entries ++ es := by
  induction es generalizing d with
  | nil => simp [insertAll]
  | cons e es ih =>
      have hnew : e.1 ∉ d.entries.map Prod.fst := by
        rw [List.map_append, List.nodup_append] at h
        exact fun hmem => h.2.2 _ hmem _ List.mem_cons_self rfl
      have hput : (d.insert e.1 e.2).entries = d.entries ++ [e] := putEntry_of_not_mem e.2 hnew
      have hrest := ih (d := d.insert e.1 e.2) (by rwa [hput, List.append_assoc])
      rw [hput, List.append_assoc] at hrest
      exact hrest

/-- A dictionary is nothing but its entries. -/
theorem eq_of_entries_eq {d e : Dict α} (h : d.entries = e.entries) : d = e := by
  cases d
  cases e
  cases h
  rfl

/-- The entries of a dictionary make up the dictionary. -/
theorem ofList_entries (d : Dict α) : ofList d.entries = d :=
  eq_of_entries_eq (entries_insertAll d.nodup)

end Dict

end InfixFormula
