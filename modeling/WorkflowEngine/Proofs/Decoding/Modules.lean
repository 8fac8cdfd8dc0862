import WorkflowEngine.Proofs.Decoding.Nesting

/-!
# Reading written modules

The written form of a module holds its name and its signature among the fields of its kind. Decoding
gathers the others in their order, finds the type after them, and decodes them as that type asks;
the children are decoded in the same way. So a written module is decoded into itself, whatever
presents it, by induction over its children.
-/

namespace WorkflowEngine

open Decoding

/-! ## Modules in order -/

/-- The keys of the cases of a switch. -/
def Kind.keys {ρ α : Type} : Kind ρ α → List Payload
  | .switch _ cases _ => cases.map Case.key
  | _ => []

/-- Modules in which every key of a case, at any depth, is in order. -/
inductive ModuleSpec.Ordered : ModuleSpec → Prop where
  /-- Keys in order, and children of which the same holds. -/
  | mk {id : ModuleId} {signature : Signature} {kind : Kind ModuleId ModuleSpec}
    (keys : ∀ key ∈ kind.keys, key.Ordered) (children : ∀ c ∈ kind.children, Ordered c) :
    Ordered (.mk id signature kind)

/-- Kinds in which every key of a case, at any depth, is in order. -/
structure Kind.Ordered (k : Kind ModuleId ModuleSpec) : Prop where
  /-- The keys of the kind's own cases are in order. -/
  keys : ∀ key ∈ k.keys, key.Ordered
  /-- The same holds of the children. -/
  children : ∀ c ∈ k.children, c.Ordered

/-- A module is ordered if its kind is: its signature has no payloads. -/
theorem ModuleSpec.ordered_mk_iff {id : ModuleId} {signature : Signature}
    {k : Kind ModuleId ModuleSpec} : (ModuleSpec.mk id signature k).Ordered ↔ k.Ordered := by
  constructor
  · rintro ⟨keys, children⟩
    exact ⟨keys, children⟩
  · rintro ⟨keys, children⟩
    exact .mk keys children

/-! ## The written forms -/

namespace Kind

/-- The fields of a kind by ascending name. -/
def orderedFields (k : Kind ModuleId Json) : List (String × Json) :=
  match k with
  | .switch condition cases fallback =>
    ("cases", .array (cases.map Case.toJson)) :: ("condition", .string condition) ::
      fallback.toList.map fun v => ("default", v)
  | k => k.fields

/-- The fields of a kind by ascending name, and the type, which comes after all of them. -/
def orderedMembers (k : Kind ModuleId Json) : List (String × Json) :=
  k.orderedFields ++ [("type", .string k.tag.name)]

/-- The members of a kind are put in order by their names. -/
theorem ofMembers_members (k : Kind ModuleId Json) :
    Json.ofMembers k.members = .object k.orderedMembers := by
  cases k with
  | switch condition cases fallback =>
    cases fallback <;>
      simp only [orderedMembers, orderedFields, members, fields, Option.toList, List.map_cons,
        List.map_nil, List.cons_append, List.nil_append, Json.ofMembers_eq_foldl, List.foldl_cons,
        List.foldl_nil, Ascending.place, String.reduceLT, if_true, if_false]
  | _ =>
    simp only [orderedMembers, orderedFields, members, fields, List.cons_append, List.nil_append,
      Json.ofMembers_eq_foldl, List.foldl_cons, List.foldl_nil, Ascending.place, String.reduceLT,
      if_true, if_false]

/-- A kind with what is written for its children. -/
def written (k : Kind ModuleId ModuleSpec) : Kind ModuleId Json :=
  k.map (fun r => r) ModuleSpec.toJson

/-- Writing the children of a kind keeps its type. -/
theorem tag_written (k : Kind ModuleId ModuleSpec) : k.written.tag = k.tag := by
  cases k <;> rfl

/-- No field of a kind has the name of another field of a module. -/
theorem name_of_mem_orderedFields {k : Kind ModuleId Json} {m : String × Json}
    (h : m ∈ k.orderedFields) : m.1 ≠ "id" ∧ m.1 ≠ "signature" ∧ m.1 ≠ "type" := by
  cases k with
  | switch condition cases fallback =>
    simp only [orderedFields, List.mem_cons, List.mem_map, Option.mem_toList] at h
    rcases h with rfl | rfl | ⟨v, _, rfl⟩ <;> simp
  | http => cases h
  | sequential _ | parallel _ | subWorkflow _ | llm _ | tool _ | jsonExtract _ =>
    rw [List.mem_singleton.1 h]
    simp

end Kind

/-- The name and the signature of a module stand in its written form among the members of its
kind. -/
theorem ModuleSpec.nodeJson_eq (id : ModuleId) (signature : Signature) (k : Kind ModuleId Json) :
    ∃ before after, before ++ after = k.orderedMembers ∧
      nodeJson id signature k = .object (before ++ ("id", .string id) ::
        ("signature", signature.toJson) :: after) := by
  cases k with
  | parallel _ | jsonExtract _ =>
    refine ⟨_, _, rfl, ?_⟩
    simp only [nodeJson, Kind.orderedFields, Kind.members, Kind.fields, List.cons_append,
      List.nil_append, Json.ofMembers_eq_foldl, List.foldl_cons, List.foldl_nil, Ascending.place,
      String.reduceLT, if_true, if_false]
  | switch condition cases fallback =>
    refine ⟨_, _, rfl, ?_⟩
    cases fallback <;>
      simp only [nodeJson, Kind.orderedFields, Kind.members, Kind.fields, Option.toList,
        List.map_cons, List.map_nil, List.cons_append, List.nil_append, Json.ofMembers_eq_foldl,
        List.foldl_cons, List.foldl_nil, Ascending.place, String.reduceLT, if_true, if_false]
  | sequential _ | subWorkflow _ | llm _ | tool _ | http =>
    refine ⟨[], _, List.nil_append _, ?_⟩
    simp only [nodeJson, Kind.orderedMembers, Kind.orderedFields, Kind.members, Kind.fields,
      List.cons_append, List.nil_append, Json.ofMembers_eq_foldl, List.foldl_cons, List.foldl_nil,
      Ascending.place, String.reduceLT, if_true, if_false]

/-- A module is written as a node with its kind written. -/
theorem ModuleSpec.toJson_mk (id : ModuleId) (signature : Signature)
    (k : Kind ModuleId ModuleSpec) :
    (ModuleSpec.mk id signature k).toJson =
      nodeJson id signature k.written :=
  ModuleSpec.fold_mk ModuleSpec.nodeJson id signature k

theorem ModuleSpec.toJson_ne_null (s : ModuleSpec) : s.toJson ≠ .null := by
  cases s
  rw [ModuleSpec.toJson_mk]
  exact nofun

variable {σ : Type} [Source σ] {P : Presentation σ} {s : σ}

/-! ## Gathering the fields -/

namespace ModuleSpec

/-- Members that are neither the name nor the signature are taken over in their order. -/
theorem gathers_append {id' : Option ModuleId} {signature' : Option Signature}
    {ms rest : List (String × Json)} (hms : ∀ m ∈ ms, m.1 ≠ "id" ∧ m.1 ≠ "signature")
    {entries : Entries σ} (he : List.Forall₂ P.ShowsMember entries (ms ++ rest)) :
    ∃ entries', List.Forall₂ P.ShowsMember entries' rest ∧
      ∀ {id : Option ModuleId} {signature : Option Signature} {others : List (Content × Content)},
        Gathers id' signature' id signature entries' others →
        Gathers id' signature' id signature entries (Content.ofJsonMembers ms ++ others) := by
  induction ms generalizing entries with
  | nil => exact ⟨entries, he, fun h => h⟩
  | cons m ms ih =>
    obtain ⟨name, v⟩ := m
    cases he with
    | @cons e _ entries _ hm he =>
      obtain ⟨key, part⟩ := e
      obtain ⟨rfl, hpart⟩ := hm
      obtain ⟨hid, hsignature⟩ := hms (name, v) List.mem_cons_self
      obtain ⟨entries', he', hgathers⟩ := ih (fun m hm => hms m (List.mem_cons_of_mem _ hm)) he
      refine ⟨entries', he', fun h => ?_⟩
      exact .other (fun h => hid (Key.name.inj h)) (fun h => hsignature (Key.name.inj h))
        (P.content hpart) (hgathers h)

/-- The name and the signature are found among the members, and all others are taken over. -/
theorem gathers_of_shows {id : ModuleId} {signature : Signature}
    {before after : List (String × Json)}
    (hnames : ∀ m ∈ before ++ after, m.1 ≠ "id" ∧ m.1 ≠ "signature") {entries : Entries σ}
    (he : List.Forall₂ P.ShowsMember entries (before ++ ("id", .string id) ::
      ("signature", signature.toJson) :: after)) :
    Gathers (some id) (some signature) none none entries
      (Content.ofJsonMembers (before ++ after)) := by
  have hothers : Content.ofJsonMembers (before ++ after) =
      Content.ofJsonMembers before ++ (Content.ofJsonMembers after ++ []) := by
    simp only [Content.ofJsonMembers_eq_map, List.map_append, List.append_nil]
  rw [hothers]
  obtain ⟨entries', he, hbefore⟩ := gathers_append
    (fun m hm => hnames m (List.mem_append_left after hm)) he
  refine hbefore ?_
  cases he with
  | @cons e _ entries' _ hid he =>
    obtain ⟨key, part⟩ := e
    obtain ⟨rfl, hid⟩ := hid
    refine .id (P.text hid) ?_
    cases he with
    | @cons e _ entries' _ hsignature he =>
      obtain ⟨key, part⟩ := e
      obtain ⟨rfl, hsignature⟩ := hsignature
      refine .signature (Signature.read_of_shows hsignature) ?_
      rw [← List.append_nil after] at he
      obtain ⟨entries'', he, hafter⟩ := gathers_append
        (fun m hm => hnames m (List.mem_append_right before hm)) he
      cases he
      exact hafter .done

end ModuleSpec

namespace Kind

/-- Every type is decoded from its name. -/
theorem findWord_name (t : KindTag) : findWord KindTag.words (.name t.name) = .ok t := by
  cases t <;> rfl

/-- The type is taken from behind the fields of a written kind. -/
theorem takesTag_written {ms : List (String × Json)} (hms : ∀ m ∈ ms, m.1 ≠ "type")
    (tag : KindTag) :
    TakesTag tag none (Content.ofJsonMembers (ms ++ [("type", .string tag.name)]))
      (Content.ofJsonMembers ms) := by
  induction ms with
  | nil => exact .type (findWord_name tag) .done
  | cons m ms ih =>
    obtain ⟨name, v⟩ := m
    have hname : Content.text name ≠ .text "type" :=
      fun h => hms (name, v) List.mem_cons_self (Content.text.inj h)
    exact .other hname (ih fun m hm => hms m (List.mem_cons_of_mem _ hm))

/-- A field of another name than the type is kept until the type is known. -/
theorem gather_other {name : String} (hname : name ≠ "type") {part : σ} {c : Content}
    (h : Source.content part = .ok c) (tag : Option KindTag) (rest : List (Content × Content))
    (entries : Entries σ) :
    gather tag rest ((.ok (.name name), part) :: entries) =
      gather tag ((.text name, c) :: rest) entries := by
  simp only [gather, bind, Except.bind, h]

/-- The type is found behind the fields of a written kind, which are taken over. -/
theorem gather_of_shows {ms : List (String × Json)} (hms : ∀ m ∈ ms, m.1 ≠ "type")
    {tag : KindTag} {entries : Entries σ}
    (he : List.Forall₂ P.ShowsMember entries (ms ++ [("type", .string tag.name)]))
    (rest : List (Content × Content)) :
    gather none rest entries = .ok (tag, rest.reverse ++ Content.ofJsonMembers ms) := by
  induction ms generalizing rest entries with
  | nil =>
    cases he with
    | @cons e _ entries _ hm he =>
      obtain ⟨key, part⟩ := e
      obtain ⟨rfl, hpart⟩ := hm
      cases he
      simp only [gather, bind, Except.bind, Option.isSome_none, Bool.false_eq_true, if_false,
        P.text hpart, findWord_name, Content.ofJsonMembers, List.append_nil]
  | cons m ms ih =>
    obtain ⟨name, v⟩ := m
    cases he with
    | @cons e _ entries _ hm he =>
      obtain ⟨key, part⟩ := e
      obtain ⟨rfl, hpart⟩ := hm
      rw [gather_other (hms _ List.mem_cons_self) (P.content hpart),
        ih (fun m hm => hms m (List.mem_cons_of_mem _ hm)) he, Content.ofJsonMembers,
        List.reverse_cons, List.append_assoc]
      rfl

/-! ## Reading the fields -/

variable {child : Content → Except Failure ModuleSpec} {k : Kind ModuleId ModuleSpec}

/-- The fields of a kind are decoded into what they are written for if its children are. -/
theorem readFields_of_children (hkeys : ∀ key ∈ k.keys, key.Ordered)
    (hchild : ∀ c ∈ k.children, child (.ofJson c.toJson) = .ok c) :
    readFields child k.tag
      (.map (Content.ofJsonMembers k.written.orderedFields)) =
        .ok k := by
  have hshows {c : ModuleSpec} (hc : c ∈ k.children) (p : Content)
      (hp : Presentation.ofContent.Shows p c.toJson) : child p = .ok c := by
    cases hp
    exact hchild c hc
  have htext {name text : String} :
      readField name "" Source.text (.map (Content.ofJsonMembers [(name, .string text)])) =
        .ok text :=
    readRecord_of_shows_single (P := .ofContent) rfl fun p hp => Presentation.ofContent.text hp
  cases k with
  | sequential steps =>
    have hsteps : readOptionalField "steps" [] (readList (Step.readWith child)) (.map
        (Content.ofJsonMembers [("steps", .array (steps.map fun t =>
          Step.toJson ⟨t.child.toJson, t.mapping⟩))])) = .ok steps := by
      refine readRecord_of_shows_single (P := .ofContent) rfl fun p hp => ?_
      refine readList_of_shows hp fun t ht p hp => ?_
      exact Step.readWith_of_shows (hshows (List.mem_map_of_mem ht)) hp
    simp only [written, map, orderedFields, fields, List.map_map]
    exact map_eq_ok hsteps
  | parallel branches =>
    have hbranches : readOptionalField "branches" [] (readList child) (.map
        (Content.ofJsonMembers [("branches", .array (branches.map ModuleSpec.toJson))])) =
          .ok branches := by
      refine readRecord_of_shows_single (P := .ofContent) rfl fun p hp => ?_
      exact readList_of_shows hp fun c hc p hp => hshows hc p hp
    exact map_eq_ok hbranches
  | switch condition cases fallback =>
    have hcases (p : Content) (hp : Presentation.ofContent.Shows p (.array (cases.map fun c =>
        Case.toJson ⟨c.key, c.child.toJson⟩))) : readList (Case.readWith child) p = .ok cases := by
      refine readList_of_shows hp fun c hc p hp => ?_
      exact Case.readWith_of_shows (hkeys c.key (List.mem_map_of_mem hc))
        (hshows (List.mem_append_left _ (List.mem_map_of_mem hc))) hp
    have hfills : Fills .ofContent (switchFields child) [] ⟨"", [], none⟩
        (Kind.switch condition cases fallback).written.orderedFields
        ⟨condition, cases, fallback⟩ := by
      rw [written, map, orderedFields, List.map_map]
      refine .field rfl (by decide) (fun p hp => assign_eq_ok (hcases p hp)) ?_
      refine .field rfl (by decide)
        (fun p hp => assign_eq_ok (Presentation.ofContent.text hp)) ?_
      cases fallback with
      | none => exact .done rfl
      | some d =>
        refine .field rfl (by decide) (fun p hp => assign_eq_ok ?_) (.done rfl)
        rw [Presentation.ofContent.optional hp d.toJson_ne_null]
        exact mapM_option_eq_ok_iff.2 (.some (hshows (by simp [children]) p hp))
    exact bind_eq_ok_iff.2 ⟨⟨condition, cases, fallback⟩, hfills.readRecord rfl, rfl⟩
  | subWorkflow target | llm template | tool name | jsonExtract path => exact map_eq_ok htext
  | http => rfl

end Kind

/-! ## Reading modules -/

namespace ModuleSpec

variable {k : Kind ModuleId ModuleSpec}

/-- The fields of a kind are decoded into what they are written for if its children are. -/
theorem readKind_written (hkeys : ∀ key ∈ k.keys, key.Ordered)
    (hchild : ∀ c ∈ k.children, read (Content.ofJson c.toJson) = .ok c) :
    readKind (Content.ofJsonMembers k.written.orderedMembers) = .ok k := by
  have htag := Kind.takesTag_written
    (fun m hm => (Kind.name_of_mem_orderedFields (k := k.written) hm).2.2) k.tag
  rw [readKind_eq, Kind.orderedMembers, Kind.tag_written]
  refine bind_eq_ok_iff.2 ⟨(k.tag, _), Kind.takeTag_eq_ok_iff.2 htag, ?_⟩
  exact Kind.readFields_of_children hkeys hchild

/-- A written module is decoded into itself if the fields of its kind are. -/
theorem read_of_readKind {id : ModuleId} {signature : Signature}
    (hkind : readKind (Content.ofJsonMembers k.written.orderedMembers) = .ok k)
    (hs : P.Shows s (ModuleSpec.mk id signature k).toJson) :
    read s = .ok (.mk id signature k) := by
  rw [toJson_mk] at hs
  obtain ⟨before, after, hmembers, hnode⟩ := nodeJson_eq id signature k.written
  rw [hnode] at hs
  obtain ⟨entries, hentries, _, hshows⟩ := P.entries hs
  have hnames : ∀ m ∈ before ++ after, m.1 ≠ "id" ∧ m.1 ≠ "signature" := by
    rw [hmembers]
    intro m hm
    rcases List.mem_append.1 hm with hm | hm
    · exact ⟨(Kind.name_of_mem_orderedFields hm).1, (Kind.name_of_mem_orderedFields hm).2.1⟩
    · rw [List.mem_singleton.1 hm]
      simp
  have hgathers := gathers_of_shows hnames hshows
  rw [hmembers] at hgathers
  exact readWith_eq_ok_iff.2 ⟨entries, id, some signature, _, k, hentries, hgathers, hkind, rfl⟩

/-- A written module is decoded into itself. -/
theorem read_of_shows {t : ModuleSpec} (ht : t.Ordered) (hs : P.Shows s t.toJson) :
    read s = .ok t := by
  -- The children are decoded from content, whatever presents the module.
  induction ht generalizing σ with
  | mk keys children ih =>
    exact read_of_readKind (readKind_written keys fun c hc => ih c hc (P := .ofContent) rfl) hs

end ModuleSpec

/-! ## Parts that stand alone -/

theorem Step.read_of_shows {t : Step ModuleSpec} (ht : t.child.Ordered)
    (hs : P.Shows s (Step.toJson ⟨t.child.toJson, t.mapping⟩)) : Step.read s = .ok t :=
  Step.readWith_of_shows (fun _ hp => ModuleSpec.read_of_shows ht hp) hs

theorem Case.read_of_shows {c : Case ModuleSpec} (hkey : c.key.Ordered) (hc : c.child.Ordered)
    (hs : P.Shows s (Case.toJson ⟨c.key, c.child.toJson⟩)) : Case.read s = .ok c :=
  Case.readWith_of_shows hkey (fun _ hp => ModuleSpec.read_of_shows hc hp) hs

theorem Kind.read_of_shows {k : Kind ModuleId ModuleSpec} (hk : k.Ordered)
    (hs : P.Shows s k.toJson) : Kind.read s = .ok k := by
  rw [show k.toJson = Json.ofMembers k.written.members from rfl, ofMembers_members] at hs
  obtain ⟨entries, _, hlayout, hshows⟩ := P.entries hs
  rw [orderedMembers, tag_written] at hshows
  have hgather := gather_of_shows (fun m hm => (name_of_mem_orderedFields hm).2.2) hshows []
  have hfields := readFields_of_children hk.keys fun c hc =>
    ModuleSpec.read_of_shows (P := .ofContent) (hk.children c hc) rfl
  refine located_eq_ok_iff.2 (bind_eq_ok_iff.2 ⟨.named entries, hlayout, ?_⟩)
  exact bind_eq_ok_iff.2 ⟨_, hgather, hfields⟩

/-- The written form of a document: the list of its modules. -/
def WorkflowDocument.toJson (specs : List ModuleSpec) : Json :=
  Json.ofMembers [("modules", .array (specs.map ModuleSpec.toJson))]

/-- A document is decoded as it was written. -/
theorem readDocument_of_shows {specs : List ModuleSpec} (h : ∀ t ∈ specs, t.Ordered)
    (hs : P.Shows s (WorkflowDocument.toJson specs)) : readDocument s = .ok specs := by
  rw [WorkflowDocument.toJson, Json.ofMembers_of_pairwise (List.pairwise_singleton _ _)] at hs
  refine readRecord_of_shows_single hs fun p hp => ?_
  exact readList_of_shows hp fun t ht p hp => ModuleSpec.read_of_shows (h t ht) hp

end WorkflowEngine
