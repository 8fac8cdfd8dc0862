import WorkflowEngine.Decoding.Sources
import WorkflowEngine.Proofs.Decoding.Order
import Mathlib.Data.List.Forall2

/-!
# JSON values as parts of documents

A JSON value stands in a document as a part of it: as a JSON text in which lists and objects may
nest deep enough, or as content that was taken over. What decoders see of such a part is what the
value is: `Presentation` lists all of it, so that decoding is followed once for every language that
presents JSON values.
-/

namespace WorkflowEngine

open Decoding

/-! ## Values taken over -/

namespace Content

mutual

/-- A JSON value taken over. -/
def ofJson : Json → Content
  | .null => .null
  | .boolean b => .boolean b
  | .number n => JsonPart.numberContent n
  | .string s => .text s
  | .array items => .list (ofJsonItems items)
  | .object members => .map (ofJsonMembers members)

/-- The items of a JSON list taken over. -/
def ofJsonItems : List Json → List Content
  | [] => []
  | v :: rest => ofJson v :: ofJsonItems rest

/-- The members of a JSON object taken over. -/
def ofJsonMembers : List (String × Json) → List (Content × Content)
  | [] => []
  | (name, v) :: rest => (.text name, ofJson v) :: ofJsonMembers rest

end

theorem ofJsonItems_eq_map (items : List Json) : ofJsonItems items = items.map ofJson := by
  induction items with
  | nil => rfl
  | cons v rest ih => rw [ofJsonItems, ih, List.map_cons]

/-- Members are presented one by one, under texts. -/
theorem ofJsonMembers_eq_map (members : List (String × Json)) :
    ofJsonMembers members = members.map fun m => (.text m.1, ofJson m.2) := by
  induction members with
  | nil => rfl
  | cons m rest ih =>
    obtain ⟨name, v⟩ := m
    rw [ofJsonMembers, ih, List.map_cons]

theorem depth_le_depthItems {items : List Content} {c : Content} (h : c ∈ items) :
    c.depth ≤ depthItems items := by
  induction items with
  | nil => cases h
  | cons b rest ih =>
    rw [depthItems]
    rcases List.mem_cons.1 h with rfl | h
    · exact Nat.le_max_left _ _
    · exact Nat.le_trans (ih h) (Nat.le_max_right _ _)

theorem depth_le_depthEntries {entries : List (Content × Content)} {e : Content × Content}
    (h : e ∈ entries) : e.2.depth ≤ depthEntries entries := by
  induction entries with
  | nil => cases h
  | cons b rest ih =>
    obtain ⟨k, v⟩ := b
    rw [depthEntries]
    rcases List.mem_cons.1 h with rfl | h
    · exact Nat.le_trans (Nat.le_max_right _ _) (Nat.le_max_left _ _)
    · exact Nat.le_trans (ih h) (Nat.le_max_right _ _)

theorem toJsonItems_ofJsonItems {items : List Json} (h : ∀ v ∈ items, (ofJson v).toJson = .ok v) :
    toJsonItems (ofJsonItems items) = .ok items := by
  induction items with
  | nil => rfl
  | cons v rest ih =>
    have hrest := ih fun w hw => h w (List.mem_cons_of_mem v hw)
    simp only [ofJsonItems, toJsonItems, h v List.mem_cons_self, hrest]

theorem toJsonEntries_ofJsonMembers {members : List (String × Json)}
    (h : ∀ m ∈ members, (ofJson m.2).toJson = .ok m.2) :
    toJsonEntries (ofJsonMembers members) = .ok members := by
  induction members with
  | nil => rfl
  | cons m rest ih =>
    obtain ⟨name, v⟩ := m
    have hv : (ofJson v).toJson = .ok v := h (name, v) List.mem_cons_self
    have hrest := ih fun n hn => h n (List.mem_cons_of_mem (name, v) hn)
    simp only [ofJsonMembers, toJsonEntries, hv, hrest]

/-- A value in order that was taken over is the JSON value that it was. -/
theorem toJson_ofJson {v : Json} (h : v.Ordered) : (ofJson v).toJson = .ok v := by
  induction h with
  | null => rfl
  | boolean b => rfl
  | number n => cases n <;> rfl
  | string s => rfl
  | array h ih => simp only [ofJson, toJson, toJsonItems_ofJsonItems ih]
  | object names h ih =>
    simp only [ofJson, toJson, toJsonEntries_ofJsonMembers ih, Json.ofMembers_of_pairwise names]

end Content

/-! ## Depth -/

namespace Json

/-- How deep lists and objects nest in a JSON value. -/
def depth (v : Json) : Nat := (Content.ofJson v).depth

theorem depth_array (items : List Json) :
    (array items).depth = Content.depthItems (Content.ofJsonItems items) + 1 := rfl

theorem depth_object (members : List (String × Json)) :
    (object members).depth = Content.depthEntries (Content.ofJsonMembers members) + 1 := rfl

/-- An item nests as deep as the items together at most. -/
theorem depth_le_of_mem_items {items : List Json} {v : Json} (h : v ∈ items) :
    v.depth ≤ Content.depthItems (Content.ofJsonItems items) := by
  apply Content.depth_le_depthItems
  rw [Content.ofJsonItems_eq_map]
  exact List.mem_map_of_mem h

/-- A member nests as deep as the members together at most. -/
theorem depth_le_of_mem_members {members : List (String × Json)} {m : String × Json}
    (h : m ∈ members) : m.2.depth ≤ Content.depthEntries (Content.ofJsonMembers members) := by
  have hm : (Content.text m.1, Content.ofJson m.2) ∈ Content.ofJsonMembers members := by
    rw [Content.ofJsonMembers_eq_map]
    exact List.mem_map_of_mem h
  exact Content.depth_le_depthEntries hm

theorem depth_lt_of_mem_items {items : List Json} {v : Json} (h : v ∈ items) :
    v.depth < (array items).depth :=
  Nat.lt_succ_of_le (depth_le_of_mem_items h)

theorem depth_lt_of_mem_members {members : List (String × Json)} {m : String × Json}
    (h : m ∈ members) : m.2.depth < (object members).depth :=
  Nat.lt_succ_of_le (depth_le_of_mem_members h)

end Json

/-! ## Values as texts -/

namespace Json.Syntax

mutual

/-- The syntax tree of a JSON value. -/
def ofJson : Json → Syntax
  | .null => .null
  | .boolean b => .boolean b
  | .number n => .number (some n)
  | .string s => .string (some s)
  | .array items => .array (ofJsonItems items)
  | .object members => .object (ofJsonMembers members)

/-- The syntax trees of the items of a list. -/
def ofJsonItems : List Json → List Syntax
  | [] => []
  | v :: rest => ofJson v :: ofJsonItems rest

/-- The members of an object as syntax trees. -/
def ofJsonMembers : List (String × Json) → List (Option String × Syntax)
  | [] => []
  | (name, v) :: rest => (some name, ofJson v) :: ofJsonMembers rest

end

theorem ofJsonItems_eq_map (items : List Json) : ofJsonItems items = items.map ofJson := by
  induction items with
  | nil => rfl
  | cons v rest ih => rw [ofJsonItems, ih, List.map_cons]

/-- Members are presented one by one, under names that are read. -/
theorem ofJsonMembers_eq_map (members : List (String × Json)) :
    ofJsonMembers members = members.map fun m => (some m.1, ofJson m.2) := by
  induction members with
  | nil => rfl
  | cons m rest ih =>
    obtain ⟨name, v⟩ := m
    rw [ofJsonMembers, ih, List.map_cons]

theorem toItems?_ofJsonItems {depth : Nat} {items : List Json}
    (h : ∀ v ∈ items, (ofJson v).toJson? depth = some v) :
    toItems? depth (ofJsonItems items) = some items := by
  induction items with
  | nil => rfl
  | cons v rest ih =>
    have hrest := ih fun w hw => h w (List.mem_cons_of_mem v hw)
    simp only [ofJsonItems, toItems?, h v List.mem_cons_self, hrest]

/-- Members come back if each of their values does. -/
theorem toMembers?_ofJsonMembers {depth : Nat} {members : List (String × Json)}
    (h : ∀ m ∈ members, (ofJson m.2).toJson? depth = some m.2) :
    toMembers? depth (ofJsonMembers members) = some members := by
  induction members with
  | nil => rfl
  | cons m rest ih =>
    obtain ⟨name, v⟩ := m
    have hv : (ofJson v).toJson? depth = some v := h (name, v) List.mem_cons_self
    have hrest := ih fun n hn => h n (List.mem_cons_of_mem (name, v) hn)
    simp only [ofJsonMembers, toMembers?, hv, hrest]

/-- The value of the syntax tree of a value in order is that value, if it may nest so deep. -/
theorem toJson?_ofJson {v : Json} (h : v.Ordered) {depth : Nat} (hd : v.depth ≤ depth) :
    (ofJson v).toJson? depth = some v := by
  induction h generalizing depth with
  | null => rfl
  | boolean b => rfl
  | number n => rfl
  | string s => rfl
  | array h ih =>
    rw [Json.depth_array] at hd
    obtain ⟨depth, rfl⟩ := Nat.exists_eq_add_one_of_ne_zero (Nat.ne_zero_of_lt hd)
    have hitems := toItems?_ofJsonItems fun v hv =>
      ih v hv (Nat.le_trans (Json.depth_le_of_mem_items hv) (Nat.le_of_succ_le_succ hd))
    simp only [ofJson, toJson?, hitems, Option.map_some]
  | object names h ih =>
    rw [Json.depth_object] at hd
    obtain ⟨depth, rfl⟩ := Nat.exists_eq_add_one_of_ne_zero (Nat.ne_zero_of_lt hd)
    have hmembers := toMembers?_ofJsonMembers fun m hm =>
      ih m hm (Nat.le_trans (Json.depth_le_of_mem_members hm) (Nat.le_of_succ_le_succ hd))
    simp only [ofJson, toJson?, hmembers, Option.map_some, Json.ofMembers_of_pairwise names]

end Json.Syntax

namespace Decoding.JsonPart

mutual

/-- A value is taken over from its text as what it is. -/
theorem toContent_ofJson : (v : Json) → {depth : Nat} → v.depth ≤ depth →
    toContent depth (Json.Syntax.ofJson v) = .ok (Content.ofJson v)
  | .null, _, _ => by rw [Json.Syntax.ofJson, toContent, Content.ofJson]
  | .boolean b, _, _ => by rw [Json.Syntax.ofJson, toContent, Content.ofJson]
  | .number n, _, _ => by
    rw [Json.Syntax.ofJson, toContent, Content.ofJson]
    rfl
  | .string s, _, _ => by
    rw [Json.Syntax.ofJson, toContent, Content.ofJson]
    rfl
  | .array items, 0, h => absurd h (Nat.not_succ_le_zero _)
  | .array items, depth + 1, h => by
    have hitems := toContents_ofJsonItems items (Nat.le_of_succ_le_succ h)
    rw [Json.Syntax.ofJson, toContent, hitems, Content.ofJson]
    rfl
  | .object members, 0, h => absurd h (Nat.not_succ_le_zero _)
  | .object members, depth + 1, h => by
    have hmembers := toContentEntries_ofJsonMembers members (Nat.le_of_succ_le_succ h)
    rw [Json.Syntax.ofJson, toContent, hmembers, Content.ofJson]
    rfl

/-- Items are taken over from their texts as what they are. -/
theorem toContents_ofJsonItems : (items : List Json) → {depth : Nat} →
    Content.depthItems (Content.ofJsonItems items) ≤ depth →
    toContents depth (Json.Syntax.ofJsonItems items) = .ok (Content.ofJsonItems items)
  | [], _, _ => rfl
  | v :: rest, depth, h => by
    rw [Content.ofJsonItems, Content.depthItems] at h
    have hv := toContent_ofJson v (Nat.le_trans (Nat.le_max_left _ _) h)
    have hrest := toContents_ofJsonItems rest (Nat.le_trans (Nat.le_max_right _ _) h)
    rw [Json.Syntax.ofJsonItems, toContents, hv, hrest, Content.ofJsonItems]
    rfl

/-- Members are taken over from their texts as what they are. -/
theorem toContentEntries_ofJsonMembers : (members : List (String × Json)) → {depth : Nat} →
    Content.depthEntries (Content.ofJsonMembers members) ≤ depth →
    toContentEntries depth (Json.Syntax.ofJsonMembers members) =
      .ok (Content.ofJsonMembers members)
  | [], _, _ => rfl
  | (name, v) :: rest, depth, h => by
    rw [Content.ofJsonMembers, Content.depthEntries] at h
    have hv := toContent_ofJson v
      (Nat.le_trans (Nat.le_max_right _ _) (Nat.le_trans (Nat.le_max_left _ _) h))
    have hrest := toContentEntries_ofJsonMembers rest (Nat.le_trans (Nat.le_max_right _ _) h)
    rw [Json.Syntax.ofJsonMembers, toContentEntries, hv, hrest, Content.ofJsonMembers]
    rfl

end

end Decoding.JsonPart

/-! ## Presentations -/

namespace Decoding

/-- A way in which the parts of a source show JSON values, with all that decoders see of such a
part. -/
structure Presentation (σ : Type) [Source σ] where
  /-- Whether a part shows a value. -/
  Shows : σ → Json → Prop
  /-- A text is seen as itself. -/
  text {s : σ} {t : String} : Shows s (.string t) → Source.text s = .ok t
  /-- A text is seen as a word on which nothing hangs. -/
  variant {s : σ} {t : String} : Shows s (.string t) → Source.variant s = .ok (.name t, .ok ())
  /-- A truth value is seen as itself. -/
  boolean {s : σ} {b : Bool} : Shows s (.boolean b) → Source.boolean s = .ok b
  /-- The items of a list are seen in their order. -/
  items {s : σ} {vs : List Json} : Shows s (.array vs) →
    ∃ parts, Source.items s = .ok parts ∧ List.Forall₂ Shows parts vs
  /-- The members of an object are seen in their order, as a map and as a record. -/
  entries {s : σ} {ms : List (String × Json)} : Shows s (.object ms) →
    ∃ entries, Source.entries s = .ok entries ∧ Source.layout s = .ok (.named entries) ∧
      List.Forall₂ (fun e m => e.1 = .ok (.name m.1) ∧ Shows e.2 m.2) entries ms
  /-- Whatever is not nothing is there. -/
  optional {s : σ} {v : Json} : Shows s v → v ≠ .null → Source.optional s = some s
  /-- A part is taken over as the value. -/
  content {s : σ} {v : Json} : Shows s v → Source.content s = .ok (Content.ofJson v)
  /-- A part is the value if that is in order. -/
  json {s : σ} {v : Json} : Shows s v → v.Ordered → Source.json s = .ok v

namespace Presentation

/-- Whether an entry shows a member. -/
def ShowsMember {σ : Type} [Source σ] (P : Presentation σ) (e : Except Failure Key × σ)
    (m : String × Json) : Prop :=
  e.1 = .ok (.name m.1) ∧ P.Shows e.2 m.2

/-- Values that were taken over. -/
def ofContent : Presentation Content where
  Shows c v := c = .ofJson v
  text := by
    rintro _ t rfl
    rfl
  variant := by
    rintro _ t rfl
    rfl
  boolean := by
    rintro _ b rfl
    rfl
  items := by
    rintro _ vs rfl
    refine ⟨Content.ofJsonItems vs, rfl, ?_⟩
    rw [Content.ofJsonItems_eq_map, List.forall₂_map_left_iff, List.forall₂_same]
    exact fun v _ => rfl
  entries := by
    rintro _ ms rfl
    refine ⟨ContentPart.asEntries (Content.ofJsonMembers ms), rfl, rfl, ?_⟩
    rw [ContentPart.asEntries, List.forall₂_map_left_iff, Content.ofJsonMembers_eq_map,
      List.forall₂_map_left_iff, List.forall₂_same]
    exact fun m _ => ⟨rfl, rfl⟩
  optional := by
    rintro _ v rfl hv
    cases v with
    | null => exact absurd rfl hv
    | number n => cases n <;> rfl
    | boolean _ | string _ | array _ | object _ => rfl
  content := by
    rintro _ v rfl
    rfl
  json := by
    rintro _ v rfl hv
    simp only [Source.json, Content.toJson_ofJson hv]

/-- Values as JSON texts in which lists and objects may nest deep enough. -/
def ofSyntax : Presentation JsonPart where
  Shows p v := p.tree = .ofJson v ∧ v.depth ≤ p.depth
  text := by
    rintro ⟨depth, _⟩ t ⟨rfl, _⟩
    rfl
  variant := by
    rintro ⟨depth, _⟩ t ⟨rfl, _⟩
    rfl
  boolean := by
    rintro ⟨depth, _⟩ b ⟨rfl, _⟩
    rfl
  items := by
    rintro ⟨depth, _⟩ vs ⟨rfl, hd⟩
    obtain ⟨depth, rfl⟩ := Nat.exists_eq_add_one_of_ne_zero (Nat.ne_zero_of_lt hd)
    refine ⟨_, rfl, ?_⟩
    rw [List.forall₂_map_left_iff, Json.Syntax.ofJsonItems_eq_map, List.forall₂_map_left_iff,
      List.forall₂_same]
    intro v hv
    exact ⟨rfl, Nat.le_trans (Json.depth_le_of_mem_items hv) (Nat.le_of_succ_le_succ hd)⟩
  entries := by
    rintro ⟨depth, _⟩ ms ⟨rfl, hd⟩
    obtain ⟨depth, rfl⟩ := Nat.exists_eq_add_one_of_ne_zero (Nat.ne_zero_of_lt hd)
    refine ⟨_, rfl, rfl, ?_⟩
    rw [List.forall₂_map_left_iff, Json.Syntax.ofJsonMembers_eq_map, List.forall₂_map_left_iff,
      List.forall₂_same]
    intro m hm
    exact ⟨rfl, rfl, Nat.le_trans (Json.depth_le_of_mem_members hm) (Nat.le_of_succ_le_succ hd)⟩
  optional := by
    rintro ⟨depth, _⟩ v ⟨rfl, _⟩ hv
    cases v with
    | null => exact absurd rfl hv
    | boolean _ | number _ | string _ | array _ | object _ => rfl
  content := by
    rintro ⟨depth, _⟩ v ⟨rfl, hd⟩
    exact JsonPart.toContent_ofJson v hd
  json := by
    rintro ⟨depth, _⟩ v ⟨rfl, hd⟩ hv
    simp only [Source.json, Json.Syntax.toJson?_ofJson hv hd]

end Presentation

end Decoding

end WorkflowEngine
