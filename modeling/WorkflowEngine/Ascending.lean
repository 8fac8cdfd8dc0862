/-!
# Ascending collections

A collection whose items carry text keys, kept in strictly ascending key order, so that every key
occurs at most once and a listing needs no sorting. Dictionaries, sets of identifiers, registries
and tables are all of this form. Keys compare by code point.

The lemmas say what insertion does to membership and to look-up, and that it keeps the order.
-/

namespace WorkflowEngine

/-- Items in strictly ascending order of their keys. -/
structure Ascending (α : Type) (key : α → String) where
  /-- The items, smallest key first. -/
  toList : List α
  /-- Each key is smaller than every later one. -/
  ascending : toList.Pairwise fun a b => key a < key b

namespace Ascending

variable {α : Type} {key : α → String}

@[ext] theorem ext {s t : Ascending α key} (h : s.toList = t.toList) : s = t := by
  cases s; cases t; cases h; rfl

instance [DecidableEq α] : DecidableEq (Ascending α key) := fun s t =>
  if h : s.toList = t.toList then isTrue (ext h) else isFalse fun e => h (e ▸ rfl)

/-- The collection without items. -/
def empty : Ascending α key := ⟨[], List.Pairwise.nil⟩

instance : Inhabited (Ascending α key) := ⟨empty⟩

/-- Puts an item at its place; an item of the same key is replaced. -/
def place (key : α → String) (a : α) : List α → List α
  | [] => [a]
  | b :: rest =>
    if key a < key b then a :: b :: rest
    else if key b < key a then b :: place key a rest
    else a :: rest

/-- What stands in a list after an item is placed was there before or is the item. -/
theorem eq_or_mem_of_mem_place {a c : α} {l : List α} (h : c ∈ place key a l) :
    c = a ∨ c ∈ l := by
  induction l with
  | nil => simpa [place] using h
  | cons b rest ih =>
    unfold place at h
    split at h
    · simpa using h
    · split at h
      · rcases List.mem_cons.1 h with rfl | h
        · simp
        · rcases ih h with h | h <;> simp [h]
      · rcases List.mem_cons.1 h with rfl | h <;> simp [*]

/-- Placing an item keeps the ascending order. -/
theorem pairwise_place (a : α) {l : List α} (h : l.Pairwise fun a b => key a < key b) :
    (place key a l).Pairwise fun a b => key a < key b := by
  induction l with
  | nil => simp [place]
  | cons b rest ih =>
    obtain ⟨hb, hrest⟩ := List.pairwise_cons.1 h
    unfold place
    split
    · next hab =>
      refine List.pairwise_cons.2 ⟨fun c hc => ?_, h⟩
      rcases List.mem_cons.1 hc with rfl | hc
      · exact hab
      · exact String.lt_trans hab (hb c hc)
    · split
      · next hba =>
        refine List.pairwise_cons.2 ⟨fun c hc => ?_, ih hrest⟩
        rcases eq_or_mem_of_mem_place hc with rfl | hc
        · exact hba
        · exact hb c hc
      · next hab hba =>
        have he : key a = key b := String.le_antisymm (String.not_lt.1 hba) (String.not_lt.1 hab)
        exact List.pairwise_cons.2 ⟨fun c hc => he ▸ hb c hc, hrest⟩

/-- Adds an item, replacing the one of the same key. -/
def insert (s : Ascending α key) (a : α) : Ascending α key :=
  ⟨place key a s.toList, pairwise_place a s.ascending⟩

/-- The collection of a list's items; of items with one key the last stays. -/
def ofList (items : List α) : Ascending α key := items.foldl insert empty

/-- The item of a key. -/
def find? (s : Ascending α key) (k : String) : Option α := s.toList.find? fun a => key a == k

/-- Whether some item has the key. -/
def contains (s : Ascending α key) (k : String) : Bool := s.toList.any fun a => key a == k

/-- The keys, smallest first. -/
def keys (s : Ascending α key) : List String := s.toList.map key

/-- Number of items. -/
def size (s : Ascending α key) : Nat := s.toList.length

/-- Whether there are no items. -/
def isEmpty (s : Ascending α key) : Bool := s.toList.isEmpty

/-- Adds every item of a list in turn. -/
def insertAll (s : Ascending α key) (items : List α) : Ascending α key := items.foldl insert s

/-- After an item is placed, its own key finds it. -/
theorem find?_place_self (a : α) (l : List α) :
    (place key a l).find? (fun b => key b == key a) = some a := by
  induction l with
  | nil => simp [place]
  | cons b rest ih =>
    unfold place
    split
    · simp
    · split
      · next h =>
        have hne : (key b == key a) = false := by
          simp only [beq_eq_false_iff_ne, ne_eq]
          exact fun e => String.lt_irrefl _ (e ▸ h)
        simp [hne, ih]
      · simp

/-- Placing an item changes no other key's look-up. -/
theorem find?_place_of_ne {a : α} {k : String} (hk : key a ≠ k) (l : List α) :
    (place key a l).find? (fun b => key b == k) = l.find? (fun b => key b == k) := by
  have ha : (key a == k) = false := by simpa using hk
  induction l with
  | nil => simp [place, ha]
  | cons b rest ih =>
    unfold place
    split
    · simp [List.find?_cons, ha]
    · split
      · simp [List.find?_cons, ih]
      · next hab hba =>
        have he : key a = key b := String.le_antisymm (String.not_lt.1 hba) (String.not_lt.1 hab)
        simp [← he, ha]

@[simp] theorem find?_insert_self (s : Ascending α key) (a : α) :
    (s.insert a).find? (key a) = some a := find?_place_self a s.toList

theorem find?_insert_of_ne {s : Ascending α key} {a : α} {k : String} (h : key a ≠ k) :
    (s.insert a).find? k = s.find? k := find?_place_of_ne h s.toList

@[simp] theorem find?_empty (k : String) : (empty : Ascending α key).find? k = none := rfl

/-- A key is present exactly when it finds an item. -/
theorem contains_eq_isSome_find? (s : Ascending α key) (k : String) :
    s.contains k = (s.find? k).isSome := by
  simp [contains, find?, List.isSome_find?]

end Ascending

/-- Values by text key, listed in ascending key order. -/
abbrev Dictionary (β : Type) := Ascending (String × β) Prod.fst

namespace Dictionary

/-- The value of a key. -/
def get? {β : Type} (d : Dictionary β) (k : String) : Option β := (d.find? k).map Prod.snd

/-- Sets the value of a key. -/
def set {β : Type} (d : Dictionary β) (k : String) (v : β) : Dictionary β := d.insert (k, v)

@[simp] theorem get?_set_self {β : Type} (d : Dictionary β) (k : String) (v : β) :
    (d.set k v).get? k = some v := by
  simp [get?, set, Ascending.find?_insert_self d (k, v)]

theorem get?_set_of_ne {β : Type} (d : Dictionary β) {k l : String} (v : β) (h : k ≠ l) :
    (d.set k v).get? l = d.get? l := by
  have h' : d.find? l = (d.insert (k, v)).find? l :=
    (Ascending.find?_insert_of_ne (show Prod.fst (k, v) ≠ l from h)).symm
  simp [get?, set, h']

end Dictionary

/-- A set of texts, listed in ascending order. -/
abbrev TextSet := Ascending String id

end WorkflowEngine
