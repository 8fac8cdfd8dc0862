import WorkflowEngine.Execution
import WorkflowEngine.Proofs.Text.Integers

/-!
# Places in a document

A place in a document is described by the way down to it: into the member of a name or into the item
of a number, turn after turn. Written with points between the turns the way is a path, and following
this path leads to the place, or to nothing where the way leads to nothing. A path may also be
followed in parts, since a point between two paths only separates what stands in them.
-/

namespace WorkflowEngine

/-! ## Paths and their parts -/

namespace Http.Url

/-- To split a text gives at least one part, be it empty. -/
theorem splitAt_ne_nil (c : Char) (cs : List Char) : splitAt c cs ≠ [] := by
  induction cs with
  | nil => exact List.cons_ne_nil _ _
  | cons d rest ih =>
    obtain ⟨part, more, hparts⟩ := List.exists_cons_of_ne_nil ih
    rw [splitAt, hparts]
    dsimp only
    split <;> exact List.cons_ne_nil _ _

/-- A separator between two texts separates their parts. -/
theorem splitAt_append_cons (c : Char) (left right : List Char) :
    splitAt c (left ++ c :: right) = splitAt c left ++ splitAt c right := by
  induction left with
  | nil =>
    obtain ⟨part, more, hparts⟩ := List.exists_cons_of_ne_nil (splitAt_ne_nil c right)
    simp only [List.nil_append, splitAt, hparts, if_true, List.cons_append]
  | cons d rest ih =>
    obtain ⟨part, more, hparts⟩ := List.exists_cons_of_ne_nil (splitAt_ne_nil c rest)
    rw [hparts, List.cons_append] at ih
    rw [List.cons_append, splitAt, ih, splitAt, hparts]
    dsimp only
    split <;> rfl

/-- A text without separators is its own only part. -/
theorem splitAt_of_notMem {c : Char} {cs : List Char} (h : c ∉ cs) : splitAt c cs = [cs] := by
  induction cs with
  | nil => rfl
  | cons d rest ih =>
    obtain ⟨hd, hrest⟩ := List.ne_and_not_mem_of_not_mem_cons h
    rw [splitAt, ih hrest]
    exact if_neg hd.symm

end Http.Url

/-- A path made of two has the segments of the first and then those of the second. -/
theorem pathSegments_append (p q : String) :
    pathSegments (p ++ "." ++ q) = pathSegments p ++ pathSegments q := by
  have hpoint : (p ++ "." ++ q).toList = p.toList ++ '.' :: q.toList := by
    rw [String.toList_append, String.toList_append, List.append_assoc]
    rfl
  rw [pathSegments, hpoint, Http.Url.splitAt_append_cons, List.filter_append, List.map_append]
  rfl

/-- A text that is not empty and has no point in it is a path of one part. -/
theorem pathSegments_of_notMem {s : String} (hs : s ≠ "") (hpoint : '.' ∉ s.toList) :
    pathSegments s = [s] := by
  have hempty : s.toList.isEmpty = false := by
    rw [List.isEmpty_eq_false_iff]
    exact fun h => hs (String.toList_eq_nil_iff.1 h)
  rw [pathSegments, Http.Url.splitAt_of_notMem hpoint]
  simp only [List.filter_cons, hempty, Bool.not_false, if_true, List.filter_nil, List.map_cons,
    List.map_nil, String.ofList_toList]

namespace Json

/-- Paths with a point between them are followed one after the other. -/
theorem lookup?_append (v : Json) (p q : String) :
    v.lookup? (p ++ "." ++ q) = (v.lookup? p).bind fun w => w.lookup? q := by
  unfold lookup?
  rw [pathSegments_append, List.foldlM_append]
  rfl

/-! ## Ways -/

/-- A name that a path can hold. -/
structure PathName where
  /-- The name. -/
  text : String
  /-- It is not empty. -/
  nonempty : text ≠ ""
  /-- No point stands in it. -/
  pointless : '.' ∉ text.toList

/-- A turn on the way down a document. -/
inductive Turn where
  /-- Into the member of a name. -/
  | member (name : PathName)
  /-- Into the item of a number; items are counted from nought and in 64 bits. -/
  | item (index : UInt64)

namespace Turn

/-- How a turn is written in a path: as the name, or as the number in decimal digits. -/
def text : Turn → String
  | .member name => name.text
  | .item index => String.ofList (Nat.toDigits 10 index.toNat)

/-- A turn is written as one part of a path. -/
theorem pathSegments_text (t : Turn) : pathSegments t.text = [t.text] := by
  cases t with
  | member name => exact pathSegments_of_notMem (s := name.text) name.nonempty name.pointless
  | item index =>
    apply pathSegments_of_notMem
    · intro h
      have hdigits := congrArg String.toList h
      rw [text, String.toList_ofList] at hdigits
      exact Nat.toDigits_ne_nil hdigits
    · rw [text, String.toList_ofList]
      intro h
      exact absurd (Text.isDigit_of_mem_toDigits h) (by decide)

end Turn

/-- The path of a way: its turns with points between them. -/
def pathOf (way : List Turn) : String := ".".intercalate (way.map Turn.text)

/-- The parts of the path of a way are its turns. -/
theorem pathSegments_pathOf (way : List Turn) : pathSegments (pathOf way) = way.map Turn.text := by
  induction way with
  | nil => rfl
  | cons t rest ih =>
    cases rest with
    | nil => exact Turn.pathSegments_text t
    | cons t' rest =>
      have hpath : pathOf (t :: t' :: rest) = t.text ++ "." ++ pathOf (t' :: rest) := by
        apply String.toList_inj.1
        rw [String.toList_append, String.toList_append]
        simp only [pathOf, String.toList_intercalate, List.map_cons, List.intercalate_cons_cons]
      rw [hpath, pathSegments_append, ih, Turn.pathSegments_text]
      rfl

/-- What a way down a document comes to: what stands at its end, or nothing. -/
inductive Follows : Json → List Turn → Option Json → Prop where
  /-- At the end of the way something stands. -/
  | here (v : Json) : Follows v [] (some v)
  /-- The way goes on in the member of the name; of several members the first one has the name. -/
  | member {members : List (String × Json)} {name : PathName} {w : Json}
    (h : members.lookup name.text = some w) {rest : List Turn} {end? : Option Json}
    (hrest : Follows w rest end?) : Follows (.object members) (.member name :: rest) end?
  /-- The way goes on in the item of the number. -/
  | item {items : List Json} {index : UInt64} {w : Json} (h : items[index.toNat]? = some w)
    {rest : List Turn} {end? : Option Json} (hrest : Follows w rest end?) :
    Follows (.array items) (.item index :: rest) end?
  /-- No member has the name. -/
  | absent {members : List (String × Json)} {name : PathName}
    (h : ∀ m ∈ members, m.1 ≠ name.text) (rest : List Turn) :
    Follows (.object members) (.member name :: rest) none
  /-- There are not so many items. -/
  | beyond {items : List Json} {index : UInt64} (h : items.length ≤ index.toNat)
    (rest : List Turn) : Follows (.array items) (.item index :: rest) none
  /-- A list has no item of a name that is no number. -/
  | unnumbered (items : List Json) {name : PathName} (h : Text.readNat64 name.text = none)
    (rest : List Turn) : Follows (.array items) (.member name :: rest) none
  /-- Nothing stands below a value that is neither an object nor a list. -/
  | scalar {v : Json} (hobject : ∀ members, v ≠ .object members)
    (harray : ∀ items, v ≠ .array items) (t : Turn) (rest : List Turn) : Follows v (t :: rest) none

/-- A member is looked up in the members of an object. -/
theorem member?_object (members : List (String × Json)) (name : String) :
    (object members).member? name = members.lookup name := by
  induction members with
  | nil => rfl
  | cons m rest ih =>
    obtain ⟨other, v⟩ := m
    rw [List.lookup_cons, ← ih]
    by_cases h : name = other
    · simp [member?, h]
    · simp [member?, Ne.symm h, beq_false_of_ne h]

/-- A turn into an object is a step down to the member of its name. -/
theorem child?_object (members : List (String × Json)) (name : PathName) :
    (object members).child? (Turn.member name).text = members.lookup name.text :=
  member?_object members name.text

/-- A turn into a list is a step down to the item of its number. -/
theorem child?_array (items : List Json) (index : UInt64) :
    (array items).child? (Turn.item index).text = items[index.toNat]? := by
  have hread := Text.readNat64_toDigits index.toNat_lt
  rw [child?, Turn.text, hread, Option.bind_some]

/-- Nothing leads into a value that is neither an object nor an array. -/
theorem child?_scalar {v : Json} (hobject : ∀ members, v ≠ .object members)
    (harray : ∀ items, v ≠ .array items) (segment : String) : v.child? segment = none := by
  cases v with
  | object members => exact absurd rfl (hobject members)
  | array items => exact absurd rfl (harray items)
  | null | boolean _ | number _ | string _ => rfl

theorem foldlM_child?_of_some {v w : Json} {t : Turn} (h : v.child? t.text = some w)
    (rest : List Turn) :
    ((t :: rest).map Turn.text).foldlM child? v = (rest.map Turn.text).foldlM child? w := by
  rw [List.map_cons, List.foldlM_cons, h]
  rfl

theorem foldlM_child?_of_none {v : Json} {t : Turn} (h : v.child? t.text = none)
    (rest : List Turn) : ((t :: rest).map Turn.text).foldlM child? v = none := by
  rw [List.map_cons, List.foldlM_cons, h]
  rfl

/-- The path of a way leads to what the way comes to. -/
theorem lookup?_pathOf {v : Json} {way : List Turn} {end? : Option Json}
    (h : v.Follows way end?) : v.lookup? (pathOf way) = end? := by
  rw [lookup?, pathSegments_pathOf]
  induction h with
  | here v => rfl
  | @member members name w h rest end? _ ih =>
    rw [foldlM_child?_of_some ((child?_object members name).trans h), ih]
  | @item items index w h rest end? _ ih =>
    rw [foldlM_child?_of_some ((child?_array items index).trans h), ih]
  | @absent members name h rest =>
    have hnone : members.lookup name.text = none := by
      rw [List.lookup_eq_none_iff]
      exact fun m hm => bne_iff_ne.2 (h m hm).symm
    exact foldlM_child?_of_none ((child?_object members name).trans hnone) rest
  | @beyond items index h rest =>
    have hnone : items[index.toNat]? = none := List.getElem?_eq_none h
    exact foldlM_child?_of_none ((child?_array items index).trans hnone) rest
  | @unnumbered items name h rest =>
    have hstep : (array items).child? (Turn.member name).text = none := by
      rw [child?, Turn.text, h, Option.bind_none]
    exact foldlM_child?_of_none hstep rest
  | scalar hobject harray t rest =>
    exact foldlM_child?_of_none (child?_scalar hobject harray t.text) rest

/-- Paths lead where they say:

1. a path that consists of two with a point between them leads to where the second one leads from
   where the first one has led, and to nothing if one of them does;
2. the path of a way, with names that a path can hold and with the numbers of items in decimal
   digits, leads to what the way comes to: to what stands at its end, and to nothing if no member
   has a name of it, if a list has not so many items as a number of it, or if the way goes on at a
   value that is neither an object nor a list. -/
theorem lookup?_leads :
    (∀ (v : Json) (p q : String),
      v.lookup? (p ++ "." ++ q) = (v.lookup? p).bind fun w => w.lookup? q) ∧
    ∀ (v : Json) (way : List Turn) (end? : Option Json), v.Follows way end? →
      v.lookup? (pathOf way) = end? :=
  ⟨lookup?_append, fun _ _ _ h => lookup?_pathOf h⟩

/-- In a list below two names a member is found by its number and name; no tenth item is found, and
nothing below a text. -/
theorem lookup?_nested :
    let doc : Json := .object [("a", .object [("b",
      .array [.string "x", .object [("c", .boolean true)]])])]
    doc.lookup? "a.b.1.c" = some (.boolean true) ∧ doc.lookup? "a.b.9" = none ∧
      doc.lookup? "a.b.0.c" = none ∧
      ((doc.lookup? "a").bind fun w => w.lookup? "b.1.c") = some (.boolean true) := by
  intro doc
  let a : PathName := ⟨"a", by decide, by decide⟩
  let b : PathName := ⟨"b", by decide, by decide⟩
  let c : PathName := ⟨"c", by decide, by decide⟩
  obtain ⟨happend, hfollows⟩ := lookup?_leads
  have hfound : doc.Follows [.member a, .member b, .item 1, .member c] (some (.boolean true)) :=
    .member rfl (.member rfl (.item rfl (.member rfl (.here _))))
  have hbeyond : doc.Follows [.member a, .member b, .item 9] none :=
    .member rfl (.member rfl (.beyond (by decide) []))
  have hstring : (Json.string "x").Follows [.member c] none :=
    .scalar (fun _ => Json.noConfusion) (fun _ => Json.noConfusion) (.member c) []
  have hscalar : doc.Follows [.member a, .member b, .item 0, .member c] none :=
    .member rfl (.member rfl (.item rfl hstring))
  have hpath : pathOf [.member a, .member b, .item 1, .member c] = "a.b.1.c" := by decide +kernel
  have hend : doc.lookup? "a.b.1.c" = some (.boolean true) := hpath ▸ hfollows doc _ _ hfound
  refine ⟨hend, hfollows doc _ _ hbeyond, hfollows doc _ _ hscalar, ?_⟩
  rw [← happend doc "a" "b.1.c"]
  exact hend

end Json

end WorkflowEngine
