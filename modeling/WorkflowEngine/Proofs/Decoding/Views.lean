import WorkflowEngine.Proofs.Decoding.Answers

/-!
# JSON values as parts of a source

A JSON value is seen through a source as parts, one level below another; where no level is left, no
list and no object can be opened. Seen so, a record or a list in which one value is changed answers
as the decoder of this value does, whichever source it is.
-/

namespace WorkflowEngine

namespace Decoding.JsonPart

mutual

/-- What is taken over from the text of a value is the value. -/
theorem eq_of_toContent_ofJson : (v : Json) → {depth : Nat} → {c : Content} →
    toContent depth (Json.Syntax.ofJson v) = .ok c → c = .ofJson v
  | .null, _, _, h | .boolean _, _, _, h | .string _, _, _, h => (Except.ok.inj h).symm
  | .number n, _, _, h => by cases n <;> exact (Except.ok.inj h).symm
  | .array items, 0, _, h => nomatch h
  | .array items, depth + 1, c, h => by
    rw [Json.Syntax.ofJson, toContent] at h
    obtain ⟨cs, hcs, rfl⟩ := map_eq_ok_iff.1 h
    rw [eq_of_toContents_ofJsonItems items hcs, Content.ofJson]
  | .object members, 0, _, h => nomatch h
  | .object members, depth + 1, c, h => by
    rw [Json.Syntax.ofJson, toContent] at h
    obtain ⟨es, hes, rfl⟩ := map_eq_ok_iff.1 h
    rw [eq_of_toContentEntries_ofJsonMembers members hes, Content.ofJson]

theorem eq_of_toContents_ofJsonItems : (items : List Json) → {depth : Nat} →
    {cs : List Content} → toContents depth (Json.Syntax.ofJsonItems items) = .ok cs →
    cs = Content.ofJsonItems items
  | [], _, _, h => (Except.ok.inj h).symm
  | v :: rest, depth, cs, h => by
    rw [Json.Syntax.ofJsonItems, toContents] at h
    obtain ⟨c, hc, h⟩ := bind_eq_ok_iff.1 h
    obtain ⟨cs, hcs, h⟩ := bind_eq_ok_iff.1 h
    rw [pure_eq_ok_iff.1 h, eq_of_toContent_ofJson v hc, eq_of_toContents_ofJsonItems rest hcs,
      Content.ofJsonItems]

/-- Members that are taken over are what they present. -/
theorem eq_of_toContentEntries_ofJsonMembers : (members : List (String × Json)) → {depth : Nat} →
    {es : List (Content × Content)} →
    toContentEntries depth (Json.Syntax.ofJsonMembers members) = .ok es →
    es = Content.ofJsonMembers members
  | [], _, _, h => (Except.ok.inj h).symm
  | (name, v) :: rest, depth, es, h => by
    rw [Json.Syntax.ofJsonMembers, toContentEntries] at h
    obtain ⟨name, hname, h⟩ := bind_eq_ok_iff.1 h
    obtain ⟨c, hc, h⟩ := bind_eq_ok_iff.1 h
    obtain ⟨es, hes, h⟩ := bind_eq_ok_iff.1 h
    rw [pure_eq_ok_iff.1 h, eq_of_toContent_ofJson v hc,
      eq_of_toContentEntries_ofJsonMembers rest hes, Content.ofJsonMembers, ← Except.ok.inj hname]

end

end Decoding.JsonPart

namespace Decoding

/-- JSON values as parts of a source, by the levels to which lists and objects may still nest. -/
structure View (σ : Type) [Source σ] where
  /-- The part that shows a value. -/
  part : Nat → Json → σ
  /-- Whether a list or an object may stand at a level. -/
  gate : Nat → Except Failure Unit
  /-- The items of a list are shown one level below. -/
  items (d : Nat) (vs : List Json) : Source.items (part d (.array vs)) =
    gate d >>= fun _ => .ok (vs.map (part (d - 1)))
  /-- The members of an object are shown one level below. -/
  entries (d : Nat) (ms : List (String × Json)) : Source.entries (part d (.object ms)) =
    gate d >>= fun _ => .ok (ms.map fun m => (.ok (.name m.1), part (d - 1) m.2))
  /-- A list is a record of items. -/
  listed (d : Nat) (vs : List Json) : Source.layout (part d (.array vs)) =
    gate d >>= fun _ => .ok (.list (vs.map (part (d - 1))))
  /-- An object is a record of members. -/
  named (d : Nat) (ms : List (String × Json)) : Source.layout (part d (.object ms)) =
    gate d >>= fun _ => .ok (.named (ms.map fun m => (.ok (.name m.1), part (d - 1) m.2)))
  /-- Everything can be passed over. -/
  skip (d : Nat) (v : Json) : Source.skip (part d v) = .ok ()
  /-- What is taken over is the value. -/
  eq_of_content {d : Nat} {v : Json} {c : Content} :
    Source.content (part d v) = .ok c → c = .ofJson v
  /-- A value that nests no deeper than the levels allow can be taken over. -/
  content {d : Nat} {v : Json} : v.depth ≤ d → Source.content (part d v) = .ok (.ofJson v)

namespace View

/-- Content that was taken over shows values at any level. -/
def ofContent : View Content where
  part _ v := .ofJson v
  gate _ := .ok ()
  items _ vs := by
    rw [Content.ofJson, Content.ofJsonItems_eq_map]
    rfl
  entries _ ms := by
    rw [Content.ofJson, Content.ofJsonMembers_eq_map]
    exact congrArg Except.ok (List.map_map ..)
  listed _ vs := by
    rw [Content.ofJson, Content.ofJsonItems_eq_map]
    rfl
  named _ ms := by
    rw [Content.ofJson, Content.ofJsonMembers_eq_map]
    exact congrArg (Except.ok ∘ Layout.named) (List.map_map ..)
  skip _ _ := rfl
  eq_of_content h := (Except.ok.inj h).symm
  content _ := rfl

/-- The text of a value shows what nests no deeper than it may. -/
def ofSyntax : View JsonPart where
  part d v := ⟨d, .ofJson v⟩
  gate
    | 0 => fault JsonPart.tooDeep
    | _ + 1 => .ok ()
  items d vs := by
    cases d with
    | zero => rfl
    | succ d =>
      rw [Json.Syntax.ofJson, Json.Syntax.ofJsonItems_eq_map]
      exact congrArg Except.ok (List.map_map ..)
  entries d ms := by
    cases d with
    | zero => rfl
    | succ d =>
      rw [Json.Syntax.ofJson, Json.Syntax.ofJsonMembers_eq_map]
      exact congrArg Except.ok (List.map_map ..)
  listed d vs := by
    cases d with
    | zero => rfl
    | succ d =>
      rw [Json.Syntax.ofJson, Json.Syntax.ofJsonItems_eq_map]
      exact congrArg (Except.ok ∘ Layout.list) (List.map_map ..)
  named d ms := by
    cases d with
    | zero => rfl
    | succ d =>
      rw [Json.Syntax.ofJson, Json.Syntax.ofJsonMembers_eq_map]
      exact congrArg (Except.ok ∘ Layout.named) (List.map_map ..)
  skip _ _ := rfl
  eq_of_content h := JsonPart.eq_of_toContent_ofJson _ h
  content h := JsonPart.toContent_ofJson _ h

variable {σ ρ α : Type} [Source σ] (V : View σ)

/-- The members of an object at a level as entries. -/
def members (d : Nat) (ms : List (String × Json)) : Entries σ :=
  ms.map fun m => (.ok (.name m.1), V.part d m.2)

/-- The parts of an object stand in the order of its members. -/
theorem members_append_cons (d : Nat) (before after : List (String × Json)) (m : String × Json) :
    V.members d (before ++ m :: after) =
      V.members d before ++ (.ok (.name m.1), V.part d m.2) :: V.members d after :=
  List.map_append ..

/-! ## Records and lists -/

/-- A record is decoded from an object by the names of its members. -/
theorem readRecord_object (fields : List (Field σ ρ)) (strict : Bool) (start : ρ) (d : Nat)
    (ms : List (String × Json)) :
    readRecord fields strict start (V.part d (.object ms)) =
      located (V.part d (.object ms))
        (V.gate d >>= fun _ => readEntries fields strict start (V.members (d - 1) ms)) := by
  rw [readRecord, V.named]
  cases V.gate d <;> rfl

/-- A record is decoded from an array by the places of its items. -/
theorem readRecord_array (fields : List (Field σ ρ)) (strict : Bool) (start : ρ) (d : Nat)
    (vs : List Json) :
    readRecord fields strict start (V.part d (.array vs)) =
      located (V.part d (.array vs))
        (V.gate d >>= fun _ => readListed 0 start fields (vs.map (V.part (d - 1)))) := by
  rw [readRecord, V.listed]
  cases V.gate d <;> rfl

/-- A list is decoded from an array item by item. -/
theorem readList_array (read : σ → Except Failure α) (d : Nat) (vs : List Json) :
    readList read (V.part d (.array vs)) =
      located (V.part d (.array vs))
        (V.gate d >>= fun _ => (vs.map (V.part (d - 1))).mapM read) := by
  rw [readList, V.items]
  cases V.gate d <;> rfl

variable {fields : List (Field σ ρ)} {d : Nat}

/-- A record answers as the field in which it is changed. -/
theorem answers_readRecord_member {rejected : Bool} {name : String} {f : Field σ ρ}
    (hf : findField fields (.name name) = some f) {v w : Json}
    (h : ∀ r, Answers rejected (f.read (V.part (d - 1) v) r) (f.read (V.part (d - 1) w) r))
    (strict : Bool) (start : ρ) (before after : List (String × Json)) :
    Answers rejected
      (readRecord fields strict start (V.part d (.object (before ++ (name, v) :: after))))
      (readRecord fields strict start (V.part d (.object (before ++ (name, w) :: after)))) := by
  rw [readRecord_object, readRecord_object, members_append_cons, members_append_cons]
  refine .located (.bind_right fun _ _ => ?_) _ _
  exact (answers_readNamed hf h strict _ _ [] start).bind _

/-- So does a record whose fields are given in their order. -/
theorem answers_readRecord_place {rejected : Bool} {before after : List Json} {f : Field σ ρ}
    (hf : fields[before.length]? = some f) {v w : Json}
    (h : ∀ r, Answers rejected (f.read (V.part (d - 1) v) r) (f.read (V.part (d - 1) w) r))
    (strict : Bool) (start : ρ) :
    Answers rejected (readRecord fields strict start (V.part d (.array (before ++ v :: after))))
      (readRecord fields strict start (V.part d (.array (before ++ w :: after)))) := by
  rw [readRecord_array, readRecord_array, List.map_append, List.map_append, List.map_cons,
    List.map_cons]
  refine .located (.bind_right fun _ _ => answers_readListed ?_ h 0 start) _ _
  rw [List.length_map]
  exact hf

/-- A list answers as the item in which it is changed. -/
theorem answers_readList_item {rejected : Bool} {read : σ → Except Failure α} {v w : Json}
    (h : Answers rejected (read (V.part (d - 1) v)) (read (V.part (d - 1) w)))
    (before after : List Json) :
    Answers rejected (readList read (V.part d (.array (before ++ v :: after))))
      (readList read (V.part d (.array (before ++ w :: after)))) := by
  rw [readList_array, readList_array, List.map_append, List.map_append, List.map_cons,
    List.map_cons]
  exact .located (.bind_right fun _ _ => .mapM h _ _) _ _

/-- Members that are no fields are passed over in a record that is not strict. -/
theorem readNamed_unknowns {name : String} (hname : findField fields (.name name) = none)
    {old : List (String × Json)} (hold : ∀ m ∈ old, m.1 = name)
    (before after : List (String × Json)) (start : ρ) :
    readNamed fields false [] start (V.members d (before ++ old ++ after)) =
      readNamed fields false [] start (V.members d (before ++ after)) := by
  induction old with
  | nil => rw [List.append_nil]
  | cons m old ih =>
    obtain ⟨name', v⟩ := m
    obtain rfl : name' = name := hold (name', v) List.mem_cons_self
    rw [← ih fun m hm => hold m (List.mem_cons_of_mem _ hm), List.append_assoc, List.cons_append,
      members_append_cons, readNamed_unknown hname (V.skip d v), List.append_assoc]
    exact congrArg _ (List.map_append ..).symm

/-- A record rejects a member that is no field if it is strict, and passes it over otherwise. -/
theorem answers_readRecord_unknown {name : String} (hname : findField fields (.name name) = none)
    {old : List (String × Json)} (hold : ∀ m ∈ old, m.1 = name) (x : Json) (strict : Bool)
    (start : ρ) (before after : List (String × Json)) :
    Answers strict (readRecord fields strict start (V.part d (.object (before ++ old ++ after))))
      (readRecord fields strict start (V.part d (.object (before ++ (name, x) :: after)))) := by
  rw [readRecord_object, readRecord_object]
  refine .located (.bind_right fun _ _ => .bind ?_ _) _ _
  cases strict with
  | true =>
    intro _ _
    rw [members_append_cons]
    exact fun found => readNamed_unknown_ne_ok hname _ _ _ _ _ found
  | false =>
    rw [V.readNamed_unknowns hname hold, members_append_cons, readNamed_unknown hname (V.skip _ x),
      members, List.map_append]
    exact .refl _

end View

end Decoding

end WorkflowEngine
