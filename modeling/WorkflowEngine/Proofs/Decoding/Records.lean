import WorkflowEngine.Spec.Decoding
import WorkflowEngine.Proofs.Decoding.Presentation
import WorkflowEngine.Proofs.Except
import WorkflowEngine.Proofs.Shapes

/-!
# Reading written records

A record is decoded member by member. Where the members of an object, in their order, lead from what
a record starts with to what it should hold, decoding a part that shows the object gives just that;
`Fills` lists such members. What is written for declarations, signatures, values, steps and cases
fills their fields in this way, the members that are left out included.
-/

namespace WorkflowEngine

open Decoding

variable {σ ρ α β : Type}

namespace Decoding

/-- A field is found by its own name. -/
theorem name_of_findField {fields : List (Field σ ρ)} {name : String} {f : Field σ ρ}
    (h : findField fields (.name name) = some f) : f.name = name := by
  have hname := List.find?_some h
  exact beq_iff_eq.1 hname

variable [Source σ] {P : Presentation σ} {s : σ}

/-- Where a failure is located does not matter to a result. -/
theorem located_eq_ok_iff {r : Except Failure α} {a : α} : located s r = .ok a ↔ r = .ok a := by
  cases r with
  | error e => exact iff_of_false nofun nofun
  | ok b => exact Iff.rfl

/-- What a decoded part is made into is the result. -/
theorem assign_eq_ok {x : Except Failure β} {b : β} {g : β → ρ} (h : x = .ok b) :
    (x >>= fun b => pure (g b)) = .ok (g b) := by
  rw [h]
  rfl

/-! ## Records -/

/-- Members that lead a record from one state to another, given the names that stand before: each
has a field of its own, and after the last no required field is absent. -/
inductive Fills (P : Presentation σ) (fields : List (Field σ ρ)) :
    List String → ρ → List (String × Json) → ρ → Prop where
  /-- No more members. -/
  | done {seen : List String} {r : ρ} (h : checkRequired fields seen = .ok ()) :
    Fills P fields seen r [] r
  /-- A member of a field that does not stand before. -/
  | field {seen : List String} {r r' r'' : ρ} {name : String} {v : Json}
    {rest : List (String × Json)} {f : Field σ ρ} (hf : findField fields (.name name) = some f)
    (hseen : name ∉ seen) (hread : ∀ s, P.Shows s v → f.read s r = .ok r')
    (h : Fills P fields (name :: seen) r' rest r'') :
    Fills P fields seen r ((name, v) :: rest) r''

namespace Fills

variable {fields : List (Field σ ρ)}

/-- Members that fill the fields of a record fill it when they are decoded by name. -/
theorem readNamed {seen : List String} {r r' : ρ} {ms : List (String × Json)}
    (h : Fills P fields seen r ms r') (strict : Bool) {entries : Entries σ}
    (he : List.Forall₂ P.ShowsMember entries ms) :
    ∃ seen', Decoding.readNamed fields strict seen r entries = .ok (seen', r') ∧
      checkRequired fields seen' = .ok () := by
  induction h generalizing entries with
  | done h =>
    cases he
    exact ⟨_, rfl, h⟩
  | @field seen r r' r'' name v rest f hf hseen hread h ih =>
    cases he with
    | @cons e _ entries _ hm he =>
      obtain ⟨key, part⟩ := e
      obtain ⟨rfl, hpart⟩ := hm
      obtain ⟨seen', hrest, hrequired⟩ := ih he
      refine ⟨seen', ?_, hrequired⟩
      unfold Decoding.readNamed
      refine bind_eq_ok_iff.2 ⟨.name name, rfl, ?_⟩
      simp only [hf]
      rw [name_of_findField hf, if_neg hseen]
      exact bind_eq_ok_iff.2 ⟨r', hread part hpart, hrest⟩

/-- Decoding a part that shows members which fill a record gives the record. -/
theorem readRecord {strict : Bool} {start r : ρ} {ms : List (String × Json)}
    (h : Fills P fields [] start ms r) (hs : P.Shows s (.object ms)) :
    Decoding.readRecord fields strict start s = .ok r := by
  obtain ⟨entries, _, hlayout, hentries⟩ := P.entries hs
  obtain ⟨seen, hnamed, hrequired⟩ := h.readNamed strict hentries
  have hr : readEntries fields strict start entries = .ok r :=
    bind_eq_ok_iff.2 ⟨(seen, r), hnamed, bind_eq_ok_iff.2 ⟨(), hrequired, rfl⟩⟩
  exact located_eq_ok_iff.2 (bind_eq_ok_iff.2 ⟨.named entries, hlayout, hr⟩)

end Fills

/-- A record that consists of one field is what its member is written for. -/
theorem readRecord_of_shows_single {name : String} {required strict : Bool} {start a : α}
    {read : σ → Except Failure α} {v : Json} (hs : P.Shows s (.object [(name, v)]))
    (h : ∀ p, P.Shows p v → read p = .ok a) :
    readRecord [⟨name, required, fun v _ => read v⟩] strict start s = .ok a := by
  refine Fills.readRecord (.field (f := ⟨name, required, fun v _ => read v⟩) ?_ List.not_mem_nil h
    (.done ?_)) hs
  · simp [findField]
  · simp [checkRequired]

/-! ## Words, lists and maps -/

/-- A word that is shown is decoded to what it stands for. -/
theorem readWord_of_shows {words : List (Word α)} {w : String} {a : α}
    (hs : P.Shows s (.string w)) (ha : findWord words (.name w) = .ok a) :
    readWord words s = .ok a := by
  refine located_eq_ok_iff.2 (bind_eq_ok_iff.2 ⟨_, P.variant hs, ?_⟩)
  exact bind_eq_ok_iff.2 ⟨a, ha, rfl⟩

/-- A list is decoded into what its items are written for. -/
theorem readList_of_shows {read : σ → Except Failure α} {toJson : α → Json} {items : List α}
    (hs : P.Shows s (.array (items.map toJson)))
    (h : ∀ a ∈ items, ∀ p, P.Shows p (toJson a) → read p = .ok a) :
    readList read s = .ok items := by
  obtain ⟨parts, hparts, hshows⟩ := P.items hs
  rw [List.forall₂_map_right_iff] at hshows
  refine located_eq_ok_iff.2 (bind_eq_ok_iff.2 ⟨parts, hparts, mapM_eq_ok_iff.2 ?_⟩)
  exact forall₂_imp_of_mem hshows fun p _ a ha hp => h a ha p hp

/-- Entries that show texts are decoded to these texts. -/
theorem readTextEntries_of_shows {items : List (String × String)} {entries : Entries σ}
    (he : List.Forall₂ (fun e m => e.1 = .ok (.name m.1) ∧ P.Shows e.2 (.string m.2)) entries
      items) : readTextEntries entries = .ok items := by
  induction he with
  | nil => rfl
  | @cons e m entries items hm _ ih =>
    obtain ⟨key, part⟩ := e
    obtain ⟨rfl, hpart⟩ := hm
    unfold readTextEntries
    refine bind_eq_ok_iff.2 ⟨.name m.1, rfl, bind_eq_ok_iff.2 ⟨m.2, P.text hpart, ?_⟩⟩
    exact bind_eq_ok_iff.2 ⟨items, ih, rfl⟩

/-- A map from texts to texts is decoded into what is written for it. -/
theorem readTextMap_of_shows {d : Dictionary String}
    (hs : P.Shows s (Json.ofMembers (d.toList.map fun e => (e.1, .string e.2)))) :
    readTextMap s = .ok d := by
  rw [Json.ofMembers_of_pairwise (List.pairwise_map.2 d.ascending)] at hs
  obtain ⟨entries, hentries, _, hshows⟩ := P.entries hs
  rw [List.forall₂_map_right_iff] at hshows
  have htexts := readTextEntries_of_shows hshows
  refine located_eq_ok_iff.2 (bind_eq_ok_iff.2 ⟨entries, hentries, ?_⟩)
  exact bind_eq_ok_iff.2 ⟨d.toList, htexts, congrArg Except.ok d.ofList_toList⟩

end Decoding

/-! ## What is written -/

/-! The written forms, with their members by ascending name. -/

theorem ValueSpec.toJson_eq (s : ValueSpec) :
    s.toJson = .object (("name", .string s.name) ::
      (memberIf s.optional "optional" (.boolean true) ++ [("type", .string s.type.name)])) := by
  cases h : s.optional <;>
    simp only [toJson, h, memberIf, Bool.false_eq_true, List.cons_append, List.nil_append,
      Json.ofMembers_eq_foldl, List.foldl_cons, List.foldl_nil, Ascending.place, String.reduceLT,
      if_true, if_false]

/-- A signature as an object, with its names in order. -/
theorem Signature.toJson_eq (s : Signature) :
    s.toJson = .object
      (memberIf (!s.dependencies.isEmpty) "dependencies" (.ofTexts s.dependencies.toList) ++
        [("input", .array (s.input.map ValueSpec.toJson)),
          ("output", .array (s.output.map ValueSpec.toJson))]) := by
  cases h : s.dependencies.isEmpty <;>
    simp only [toJson, h, memberIf, Bool.not_true, Bool.not_false, Bool.false_eq_true,
      List.cons_append, List.nil_append, Json.ofMembers_eq_foldl, List.foldl_cons, List.foldl_nil,
      Ascending.place, String.reduceLT, if_true, if_false]

theorem Value.toJson_eq (v : Value) :
    v.toJson = .object [("payload", v.payload.toJson), ("spec", v.spec.toJson)] := by
  simp only [toJson, Json.ofMembers_eq_foldl, List.foldl_cons, List.foldl_nil, Ascending.place,
    String.reduceLT, if_true, if_false]

theorem Step.toJson_eq (s : Step Json) :
    s.toJson = .object
      (memberIf (!s.mapping.isEmpty) "mapping"
        (Json.ofMembers (s.mapping.toList.map fun e => (e.1, .string e.2))) ++
        [("module", s.child)]) := by
  cases h : s.mapping.isEmpty <;>
    simp only [toJson, h, memberIf, Bool.not_true, Bool.not_false, Bool.false_eq_true,
      List.cons_append, List.nil_append, Json.ofMembers_eq_foldl, List.foldl_cons, List.foldl_nil,
      Ascending.place, String.reduceLT, if_true, if_false]

theorem Case.toJson_eq (c : Case Json) :
    c.toJson = .object [("module", c.child), ("value", c.key.toJson)] := by
  simp only [toJson, Json.ofMembers_eq_foldl, List.foldl_cons, List.foldl_nil, Ascending.place,
    String.reduceLT, if_true, if_false]

/-! ## Reading what is written -/

variable [Source σ] {P : Presentation σ} {s : σ}

theorem ValueType.findWord_name (t : ValueType) :
    findWord ValueType.words (.name t.name) = .ok t := by
  cases t <;> rfl

theorem ValueSpec.read_of_shows {v : ValueSpec} (h : P.Shows s v.toJson) :
    ValueSpec.read s = .ok v := by
  obtain ⟨name, type, optional⟩ := v
  have htype {p : σ} (hp : P.Shows p (.string type.name)) :
      readWord ValueType.words p = .ok type :=
    readWord_of_shows hp (ValueType.findWord_name type)
  rw [ValueSpec.toJson_eq] at h
  refine Fills.readRecord (.field rfl (by decide) (fun p hp => assign_eq_ok (P.text hp)) ?_) h
  cases optional with
  | false => exact .field rfl (by decide) (fun p hp => assign_eq_ok (htype hp)) (.done rfl)
  | true =>
    refine .field rfl (by decide) (fun p hp => assign_eq_ok (P.boolean hp)) ?_
    exact .field rfl (by decide) (fun p hp => assign_eq_ok (htype hp)) (.done rfl)

theorem Signature.read_of_shows {v : Signature} (h : P.Shows s v.toJson) :
    Signature.read s = .ok v := by
  obtain ⟨input, output, dependencies⟩ := v
  have hspecs {specs : List ValueSpec} {p : σ}
      (hp : P.Shows p (.array (specs.map ValueSpec.toJson))) :
      readList ValueSpec.read p = .ok specs :=
    readList_of_shows hp fun v _ p hv => ValueSpec.read_of_shows hv
  rw [Signature.toJson_eq] at h
  cases hd : dependencies.isEmpty with
  | true =>
    simp only [hd, Bool.not_true] at h
    rw [Ascending.eq_empty_of_isEmpty hd]
    refine Fills.readRecord (.field rfl (by decide) (fun p hp => assign_eq_ok (hspecs hp)) ?_) h
    exact .field rfl (by decide) (fun p hp => assign_eq_ok (hspecs hp)) (.done rfl)
  | false =>
    simp only [hd, Bool.not_false] at h
    have htexts {p : σ} (hp : P.Shows p (.ofTexts dependencies.toList)) :
        readList Source.text p = .ok dependencies.toList :=
      readList_of_shows hp fun t _ p ht => P.text ht
    have hread {p : σ} {r : Signature} (hp : P.Shows p (.ofTexts dependencies.toList)) :
        (return { r with dependencies := .ofList (← readList Source.text p) }) =
          Except.ok { r with dependencies := dependencies } := by
      rw [htexts hp]
      exact congrArg (fun d => Except.ok { r with dependencies := d }) dependencies.ofList_toList
    refine Fills.readRecord (.field rfl (by decide) (fun p hp => hread hp) ?_) h
    refine .field rfl (by decide) (fun p hp => assign_eq_ok (hspecs hp)) ?_
    exact .field rfl (by decide) (fun p hp => assign_eq_ok (hspecs hp)) (.done rfl)

/-- A payload whose members are in order is decoded from what shows it. -/
theorem Payload.read_of_shows {p : Payload} (hp : p.Ordered) (h : P.Shows s p.toJson) :
    Payload.read s = .ok p := by
  unfold Payload.read
  rw [P.json h hp.toJson]
  exact congrArg Except.ok p.ofJson_toJson

theorem Value.read_of_shows {v : Value} (hv : v.payload.Ordered) (h : P.Shows s v.toJson) :
    Value.read s = .ok v := by
  rw [Value.toJson_eq] at h
  have hpayload {p : σ} (hp : P.Shows p v.payload.toJson) : Payload.read p = .ok v.payload :=
    Payload.read_of_shows hv hp
  have hspec {p : σ} (hp : P.Shows p v.spec.toJson) : ValueSpec.read p = .ok v.spec :=
    ValueSpec.read_of_shows hp
  refine Fills.readRecord (.field rfl (by decide) (fun p hp => assign_eq_ok (hpayload hp)) ?_) h
  exact .field rfl (by decide) (fun p hp => assign_eq_ok (hspec hp)) (.done rfl)

/-- A step is decoded into what it is written for if its child is. -/
theorem Step.readWith_of_shows {child : σ → Except Failure ModuleSpec} {t : Step ModuleSpec}
    {v : Json} (hchild : ∀ p, P.Shows p v → child p = .ok t.child)
    (h : P.Shows s (Step.toJson ⟨v, t.mapping⟩)) : Step.readWith child s = .ok t := by
  obtain ⟨c, mapping⟩ := t
  rw [Step.toJson_eq] at h
  cases hm : mapping.isEmpty with
  | true =>
    simp only [hm, Bool.not_true] at h
    rw [Ascending.eq_empty_of_isEmpty hm]
    exact Fills.readRecord
      (.field rfl (by decide) (fun p hp => assign_eq_ok (hchild p hp)) (.done rfl)) h
  | false =>
    simp only [hm, Bool.not_false] at h
    refine Fills.readRecord
      (.field rfl (by decide) (fun p hp => assign_eq_ok (readTextMap_of_shows hp)) ?_) h
    exact .field rfl (by decide) (fun p hp => assign_eq_ok (hchild p hp)) (.done rfl)

/-- A case is decoded into what it is written for if its child is. -/
theorem Case.readWith_of_shows {child : σ → Except Failure ModuleSpec} {c : Case ModuleSpec}
    {v : Json} (hkey : c.key.Ordered) (hchild : ∀ p, P.Shows p v → child p = .ok c.child)
    (h : P.Shows s (Case.toJson ⟨c.key, v⟩)) : Case.readWith child s = .ok c := by
  rw [Case.toJson_eq] at h
  have hvalue {p : σ} (hp : P.Shows p c.key.toJson) : Payload.read p = .ok c.key :=
    Payload.read_of_shows hkey hp
  refine Fills.readRecord (.field rfl (by decide) (fun p hp => assign_eq_ok (hchild p hp)) ?_) h
  exact .field rfl (by decide) (fun p hp => assign_eq_ok (hvalue hp)) (.done rfl)

end WorkflowEngine
