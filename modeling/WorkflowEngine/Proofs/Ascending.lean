import WorkflowEngine.Ascending
import Mathlib.Data.List.Nodup

/-!
# Members of ascending collections

An ascending collection is determined by its members: looking a key up finds the one member that
carries it, and insertion adds one member and takes away at most that of the same key. A list that
ascends already is its own collection.
-/

namespace WorkflowEngine

namespace Ascending

variable {α : Type} {key : α → String}

/-- What is placed into a list is then in the list. -/
theorem mem_place_self (a : α) (l : List α) : a ∈ place key a l := by
  induction l with
  | nil => exact List.mem_singleton_self a
  | cons b rest ih =>
    unfold place
    split
    · exact List.mem_cons_self
    · split
      · exact List.mem_cons_of_mem b ih
      · exact List.mem_cons_self

/-- Placing an item keeps every item of another key. -/
theorem mem_place_of_ne {a c : α} (hne : key c ≠ key a) {l : List α} (hc : c ∈ l) :
    c ∈ place key a l := by
  induction l with
  | nil => exact absurd hc List.not_mem_nil
  | cons b rest ih =>
    unfold place
    split
    · exact List.mem_cons_of_mem a hc
    · rename_i hab
      split
      · rcases List.mem_cons.1 hc with rfl | hc
        · exact List.mem_cons_self
        · exact List.mem_cons_of_mem b (ih hc)
      · rename_i hba
        rcases List.mem_cons.1 hc with rfl | hc
        · exact absurd (String.le_antisymm (String.not_lt.1 hab) (String.not_lt.1 hba)) hne
        · exact List.mem_cons_of_mem a hc

/-- An item whose key is above all keys goes to the end. -/
theorem place_eq_append {a : α} {l : List α} (h : ∀ b ∈ l, key b < key a) :
    place key a l = l ++ [a] := by
  induction l with
  | nil => rfl
  | cons b rest ih =>
    have hb := h b List.mem_cons_self
    have hab : ¬ key a < key b := by
      intro hab
      exact String.lt_irrefl _ (String.lt_trans hab hb)
    have hrest : ∀ c ∈ rest, key c < key a := by
      intro c hc
      exact h c (List.mem_cons_of_mem b hc)
    rw [place, if_neg hab, if_pos hb, ih hrest, List.cons_append]

/-- Adding items that continue the ascending order appends them. -/
theorem toList_insertAll {s : Ascending α key} {items : List α}
    (h : (s.toList ++ items).Pairwise fun a b => key a < key b) :
    (s.insertAll items).toList = s.toList ++ items := by
  induction items generalizing s with
  | nil => exact (List.append_nil _).symm
  | cons a rest ih =>
    have hs : (s.insert a).toList = s.toList ++ [a] := by
      apply place_eq_append
      intro b hb
      exact (List.pairwise_append.1 h).2.2 b hb a List.mem_cons_self
    have hrest := ih (s := s.insert a) (by rw [hs, List.append_assoc]; exact h)
    rw [hs, List.append_assoc] at hrest
    exact hrest

/-- A list that ascends already is its own collection. -/
theorem toList_ofList {items : List α} (h : items.Pairwise fun a b => key a < key b) :
    (ofList items : Ascending α key).toList = items :=
  toList_insertAll (s := empty) h

/-- A store is made again of the list of its items. -/
theorem ofList_toList (s : Ascending α key) : ofList s.toList = s :=
  ext (toList_ofList s.ascending)

theorem eq_empty_of_isEmpty {s : Ascending α key} (h : s.isEmpty = true) : s = empty :=
  ext (List.isEmpty_iff.1 h)

/-- Each key stands once. -/
theorem nodup_keys (s : Ascending α key) : s.keys.Nodup := by
  rw [keys, List.nodup_iff_pairwise_ne, List.pairwise_map]
  apply s.ascending.imp
  intro a b h e
  rw [e] at h
  exact String.lt_irrefl (key b) h

theorem pairwise_keys (s : Ascending α key) : s.keys.Pairwise (· < ·) :=
  List.pairwise_map.2 s.ascending

@[simp] theorem length_keys (s : Ascending α key) : s.keys.length = s.size := List.length_map _

/-- A key finds the one member that carries it. -/
theorem find?_eq_some_iff {s : Ascending α key} {k : String} {a : α} :
    s.find? k = some a ↔ a ∈ s.toList ∧ key a = k := by
  have found {b : α} (h : s.find? k = some b) : b ∈ s.toList ∧ key b = k :=
    ⟨List.mem_of_find?_eq_some h, by simpa using List.find?_some h⟩
  refine ⟨found, ?_⟩
  rintro ⟨ha, hk⟩
  cases h : s.find? k with
  | none =>
    have hne := List.find?_eq_none.1 h a ha
    simp [hk] at hne
  | some b =>
    obtain ⟨hb, hbk⟩ := found h
    have hnodup : (s.toList.map key).Nodup := nodup_keys s
    rw [List.inj_on_of_nodup_map hnodup hb ha (hbk.trans hk.symm)]

/-- The keys are those that find something. -/
theorem mem_keys_iff {s : Ascending α key} {k : String} :
    k ∈ s.keys ↔ ∃ a, s.find? k = some a := by
  simp only [keys, List.mem_map, find?_eq_some_iff]

/-- A key is contained exactly when it finds something. -/
theorem contains_iff {s : Ascending α key} {k : String} :
    s.contains k = true ↔ ∃ a, s.find? k = some a := by
  rw [contains_eq_isSome_find?, Option.isSome_iff_exists]

/-- Inserting an item adds its key and no other. -/
theorem mem_keys_insert {s : Ascending α key} {a : α} {k : String} :
    k ∈ (s.insert a).keys ↔ k = key a ∨ k ∈ s.keys := by
  simp only [keys, List.mem_map]
  constructor
  · rintro ⟨c, hc, rfl⟩
    rcases eq_or_mem_of_mem_place hc with rfl | hc
    · exact .inl rfl
    · exact .inr ⟨c, hc, rfl⟩
  · intro h
    by_cases hk : k = key a
    · exact ⟨a, mem_place_self a s.toList, hk.symm⟩
    · obtain ⟨c, hc, rfl⟩ := h.resolve_left hk
      exact ⟨c, mem_place_of_ne hk hc, rfl⟩

/-- Inserting items adds their keys and no others. -/
theorem mem_keys_insertAll {s : Ascending α key} {items : List α} {k : String} :
    k ∈ (s.insertAll items).keys ↔ k ∈ s.keys ∨ k ∈ items.map key := by
  induction items generalizing s with
  | nil => simp [insertAll]
  | cons a rest ih =>
    have h := ih (s := s.insert a)
    rw [mem_keys_insert] at h
    rw [List.map_cons, List.mem_cons, or_left_comm, ← or_assoc]
    exact h

/-- The keys of a collection are those of the list that it is made of. -/
theorem mem_keys_ofList {items : List α} {k : String} :
    k ∈ (ofList items : Ascending α key).keys ↔ k ∈ items.map key := by
  rw [show (ofList items : Ascending α key) = empty.insertAll items from rfl, mem_keys_insertAll]
  simp [keys, empty]

/-- Nothing comes to be in a store but what is inserted. -/
theorem mem_or_mem_of_mem_insertAll {s : Ascending α key} {items : List α} {a : α}
    (h : a ∈ (s.insertAll items).toList) : a ∈ s.toList ∨ a ∈ items := by
  induction items generalizing s with
  | nil => exact .inl h
  | cons b rest ih =>
    rcases ih (s := s.insert b) h with hs | hrest
    · rcases eq_or_mem_of_mem_place hs with rfl | hs
      · exact .inr List.mem_cons_self
      · exact .inl hs
    · exact .inr (List.mem_cons_of_mem b hrest)

/-- What a collection holds is in the list that it is made of. -/
theorem mem_of_mem_ofList {items : List α} {a : α}
    (h : a ∈ (ofList items : Ascending α key).toList) : a ∈ items :=
  (mem_or_mem_of_mem_insertAll (s := empty) h).resolve_left List.not_mem_nil

/-- Placing an item whose key is free adds it and takes nothing away. -/
theorem perm_place {a : α} {l : List α} (h : ∀ b ∈ l, key b ≠ key a) :
    (place key a l).Perm (a :: l) := by
  induction l with
  | nil => exact .refl _
  | cons b rest ih =>
    have hne := h b List.mem_cons_self
    unfold place
    split
    · exact .refl _
    · next hab =>
      split
      · have hrest := ih fun c hc => h c (List.mem_cons_of_mem b hc)
        exact (hrest.cons b).trans (.swap a b rest)
      · next hba =>
        have hkey : key b = key a := String.le_antisymm (String.not_lt.1 hab) (String.not_lt.1 hba)
        exact absurd hkey hne

/-- Where the key is new, inserting an item only adds it. -/
theorem perm_toList_insert {s : Ascending α key} {a : α} (h : s.contains (key a) = false) :
    (s.insert a).toList.Perm (a :: s.toList) := by
  apply perm_place
  intro b hb hkey
  have hcontains : s.contains (key a) = true :=
    contains_iff.2 ⟨b, find?_eq_some_iff.2 ⟨hb, hkey⟩⟩
  rw [h] at hcontains
  cases hcontains

/-- After several insertions a key finds the last of the items that carry it, or what it found
before. -/
theorem find?_insertAll (s : Ascending α key) (items : List α) (k : String) :
    (s.insertAll items).find? k = (items.reverse.find? fun a => key a == k).or (s.find? k) := by
  induction items generalizing s with
  | nil => rfl
  | cons a rest ih =>
    have h := ih (s.insert a)
    rw [List.reverse_cons, List.find?_append, Option.or_assoc]
    refine h.trans (congrArg _ ?_)
    by_cases hkey : key a = k
    · subst hkey
      rw [find?_insert_self, List.find?_cons, beq_self_eq_true, Option.some_or]
    · rw [find?_insert_of_ne hkey, List.find?_cons, beq_false_of_ne hkey, List.find?_nil,
        Option.none_or]

/-- Collections with the same items are the same. -/
theorem eq_of_perm {s t : Ascending α key} (h : s.toList.Perm t.toList) : s = t := by
  apply ext
  refine h.eq_of_pairwise ?_ s.ascending t.ascending
  intro a b _ _ hab hba
  exact absurd (String.lt_trans hab hba) (String.lt_irrefl _)

/-- So are collections in which every key finds the same. -/
theorem eq_of_find? {s t : Ascending α key} (h : ∀ k, s.find? k = t.find? k) : s = t := by
  have hnodup (u : Ascending α key) : u.toList.Nodup := .of_map key u.nodup_keys
  apply eq_of_perm
  rw [List.perm_ext_iff_of_nodup (hnodup s) (hnodup t)]
  intro a
  have hfound (u : Ascending α key) : u.find? (key a) = some a ↔ a ∈ u.toList :=
    find?_eq_some_iff.trans (and_iff_left rfl)
  rw [← hfound s, ← hfound t, h]

end Ascending

namespace TextSet

/-- In a set of texts nothing is replaced by an insertion. -/
theorem mem_insert {s : TextSet} {a c : String} :
    c ∈ (s.insert a).toList ↔ c = a ∨ c ∈ s.toList := by
  constructor
  · exact Ascending.eq_or_mem_of_mem_place
  · rintro (rfl | hc)
    · exact Ascending.mem_place_self c s.toList
    · by_cases hne : c = a
      · subst hne
        exact Ascending.mem_place_self c s.toList
      · exact Ascending.mem_place_of_ne hne hc

theorem mem_insertAll {s : TextSet} {items : List String} {c : String} :
    c ∈ (s.insertAll items).toList ↔ c ∈ s.toList ∨ c ∈ items := by
  induction items generalizing s with
  | nil => simp [Ascending.insertAll]
  | cons a rest ih =>
    have h := ih (s := s.insert a)
    rw [mem_insert] at h
    rw [List.mem_cons, or_left_comm, ← or_assoc]
    exact h

/-- A set is made of exactly the texts of a list. -/
theorem mem_ofList {items : List String} {c : String} :
    c ∈ (Ascending.ofList items : TextSet).toList ↔ c ∈ items := by
  rw [show (Ascending.ofList items : TextSet) = Ascending.empty.insertAll items from rfl,
    mem_insertAll]
  simp [Ascending.empty]

/-- To insert a member changes nothing. -/
theorem insert_of_mem {s : TextSet} {a : String} (h : a ∈ s.toList) : s.insert a = s := by
  apply Ascending.ext
  obtain ⟨l, hl⟩ := s
  show Ascending.place id a l = l
  induction l with
  | nil => exact absurd h List.not_mem_nil
  | cons b rest ih =>
    obtain ⟨hb, hrest⟩ := List.pairwise_cons.1 hl
    unfold Ascending.place
    rcases List.mem_cons.1 h with rfl | h
    · rw [if_neg (String.lt_irrefl _), if_neg (String.lt_irrefl _)]
    · have hlt : id b < id a := hb a h
      have hge : ¬ id a < id b := fun hab => String.lt_irrefl _ (String.lt_trans hab hlt)
      rw [if_neg hge, if_pos hlt, ih hrest h]

/-- Texts that a set already has do not change it. -/
theorem insertAll_of_subset {s : TextSet} {items : List String} (h : items ⊆ s.toList) :
    s.insertAll items = s := by
  induction items with
  | nil => rfl
  | cons a rest ih =>
    obtain ⟨ha, hrest⟩ := List.cons_subset.1 h
    rw [Ascending.insertAll, List.foldl_cons, insert_of_mem ha]
    exact ih hrest

/-- Inserting sets one after the other adds the members of each of them. -/
theorem mem_foldl_insertAll {β : Type} (f : β → TextSet) (sets : List β) (s : TextSet)
    (c : String) :
    c ∈ (sets.foldl (fun all b => all.insertAll (f b).toList) s).toList ↔
      c ∈ s.toList ∨ ∃ b ∈ sets, c ∈ (f b).toList := by
  induction sets generalizing s with
  | nil => simp
  | cons b rest ih => rw [List.foldl_cons, ih, mem_insertAll, List.exists_mem_cons_iff, or_assoc]

end TextSet

end WorkflowEngine
